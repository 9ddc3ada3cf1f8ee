import Proforma.Command.Run
import Proforma.Proofs.Sharing
import Proforma.Proofs.Tree

/-!
Checking many files. All of them go through one session, which hands out the template that was first
under a key; but templates that were read from files are the same if their keys are, so the verdict
about a file does not depend on the files before it.
-/
namespace Proforma

theorem Template.text_of_ofMarkdown? {name text : String} {t : Template}
    (h : ofMarkdown? name text = some t) : t.text = text := by
  cases hs : FrontMatter.split? text.toList with
  | none =>
    rw [ofMarkdown?_eq_new hs] at h
    obtain rfl := Option.some.inj h
    exact String.empty_append
  | some parts =>
    simp only [ofMarkdown?, hs] at h
    obtain ⟨front, -, rfl⟩ := Option.map_eq_some_iff.mp h
    rw [Template.text, ← String.ofList_append, FrontMatter.append_of_split? hs,
      String.ofList_toList]

/-- A text makes one template under each name. -/
theorem Template.eq_of_ofMarkdown? {name name' text : String} {t u : Template}
    (ht : ofMarkdown? name text = some t) (hu : ofMarkdown? name' text = some u)
    (hname : t.name = u.name) : t = u := by
  cases hs : FrontMatter.split? text.toList with
  | none =>
    rw [ofMarkdown?_eq_new hs] at ht hu
    obtain rfl := Option.some.inj ht
    obtain rfl := Option.some.inj hu
    obtain rfl : name = name' := hname
    rfl
  | some parts =>
    simp only [ofMarkdown?, hs] at ht hu
    obtain ⟨front, hf, rfl⟩ := Option.map_eq_some_iff.mp ht
    obtain ⟨front', hf', rfl⟩ := Option.map_eq_some_iff.mp hu
    obtain rfl := Option.some.inj (hf.symm.trans hf')
    simp_all

namespace Command

/-- The texts of the files that can be read. -/
def texts (files : Files) (paths : List String) : List String :=
  paths.filterMap fun path => (files.read path).toOption

/-- Their fingerprints tell these texts apart. -/
def Distinguished (texts : List String) : Prop :=
  ∀ a ∈ texts, ∀ b ∈ texts, Text.fingerprint a = Text.fingerprint b → a = b

/-- The verdict about a file that is checked without a session. -/
def verdict (files : Files) (quiet : Bool) (path : String) : Verdict :=
  match loadTemplate files path with
  | .error e => failed path e.message
  | .ok t =>
    match t.compile with
    | .ok tree => passed quiet path t tree
    | .error e => failed path (t.report e)

theorem exists_of_loadTemplate {files : Files} {path : String} {t : Template}
    (h : loadTemplate files path = .ok t) :
    ∃ name, files.read path = .ok t.text ∧ Template.ofMarkdown? name t.text = some t := by
  unfold loadTemplate at h
  cases hr : files.read path with
  | error fault => simp [hr] at h
  | ok text =>
    simp only [hr] at h
    cases ht : Template.ofMarkdown? ((Files.stem? path).getD "template") text with
    | none => simp [ht] at h
    | some u =>
      rw [ht] at h
      obtain rfl := Except.ok.inj h
      rw [Template.text_of_ofMarkdown? ht]
      exact ⟨_, rfl, ht⟩

section

variable {files : Files} {paths : List String}

theorem mem_texts {path text : String} (hp : path ∈ paths) (h : files.read path = .ok text) :
    text ∈ texts files paths :=
  List.mem_filterMap.mpr ⟨path, hp, toOption_eq_some.mpr h⟩

/-- Templates of some files are the same if their keys are. -/
theorem eq_of_key_eq (hf : Distinguished (texts files paths)) {p q : String} (hp : p ∈ paths)
    (hq : q ∈ paths) {t u : Template} (ht : loadTemplate files p = .ok t)
    (hu : loadTemplate files q = .ok u) (hk : t.key = u.key) : t = u := by
  obtain ⟨_, hrt, hmt⟩ := exists_of_loadTemplate ht
  obtain ⟨_, hru, hmu⟩ := exists_of_loadTemplate hu
  have htext : t.text = u.text :=
    hf _ (mem_texts hp hrt) _ (mem_texts hq hru) (congrArg TemplateKey.fingerprint hk)
  rw [← htext] at hmu
  exact Template.eq_of_ofMarkdown? hmt hmu (congrArg TemplateKey.name hk)

/-- What a session holds was read from these files. -/
def Loaded (files : Files) (paths : List String) (s : Session) : Prop :=
  ∀ k u, s.held? k = some u → u.key = k ∧ ∃ path ∈ paths, loadTemplate files path = .ok u

theorem loaded_new (files : Files) (paths : List String) (settings : Settings) :
    Loaded files paths (Session.new settings) := by
  rintro k u ⟨⟩

theorem Loaded.keeps {s s' : Session} (h : Loaded files paths s) (hk : s.Keeps s') :
    Loaded files paths s' := by
  obtain ⟨_, _, rfl⟩ := hk
  exact h

theorem Loaded.register {s : Session} (h : Loaded files paths s) {path : String}
    (hp : path ∈ paths) {t : Template} (ht : loadTemplate files path = .ok t) :
    Loaded files paths (s.register t).2 := by
  intro k u hu
  rw [Session.held?_register] at hu
  rcases Option.or_eq_some_iff.mp hu with hu | ⟨-, hu⟩
  · exact h k u hu
  · split at hu
    · next hk =>
      obtain rfl := Option.some.inj hu
      exact ⟨hk, path, hp, ht⟩
    · cases hu

/-- What is handed out for the template of a file is that template. -/
theorem Loaded.template_register {s : Session} (h : Loaded files paths s)
    (hf : Distinguished (texts files paths)) {path : String} (hp : path ∈ paths) {t : Template}
    (ht : loadTemplate files path = .ok t) : (s.register t).1.template = t := by
  rw [Session.template_register]
  cases hu : s.held? t.key with
  | none => rfl
  | some u =>
    obtain ⟨hk, q, hq, hl⟩ := h _ u hu
    exact eq_of_key_eq hf hq hp hl ht hk

theorem checkOne_of_loaded (hf : Distinguished (texts files paths)) {s : Session}
    (h : Loaded files paths s) {path : String} (hp : path ∈ paths) (quiet : Bool) :
    (checkOne files quiet s path).1 = verdict files quiet path ∧
      Loaded files paths (checkOne files quiet s path).2 := by
  unfold checkOne load verdict
  cases ht : loadTemplate files path with
  | error e => exact ⟨rfl, h⟩
  | ok t =>
    obtain ⟨parsed, hparse⟩ := (s.register t).2.exists_parse (s.register t).1
    have hloaded : Loaded files paths { (s.register t).2 with parsed } :=
      (h.register hp ht).keeps ⟨parsed, _, rfl⟩
    simp only [Except.map, hparse, h.template_register hf hp ht]
    cases t.compile with
    | ok tree => exact ⟨rfl, hloaded⟩
    | error e => exact ⟨rfl, hloaded⟩

/-- Each file gets the verdict that it would get without the files before it. -/
theorem checkAll_of_loaded (hf : Distinguished (texts files paths)) {s : Session}
    (h : Loaded files paths s) {chosen : List String} (hc : chosen ⊆ paths) (quiet : Bool) :
    checkAll files quiet s chosen = chosen.map (verdict files quiet) := by
  induction chosen generalizing s with
  | nil => rfl
  | cons path rest ih =>
    obtain ⟨hp, hrest⟩ := List.cons_subset.mp hc
    obtain ⟨hv, hl⟩ := checkOne_of_loaded hf h hp quiet
    rw [checkAll, List.map_cons, ← hv, ← ih hl hrest]

theorem check_eq (hf : Distinguished (texts files paths)) (settings : Settings)
    {chosen : List String} (hc : chosen ⊆ paths) (quiet : Bool) :
    check files quiet (Session.new settings) chosen =
      ⟨String.join (chosen.map fun path => (verdict files quiet path).text),
        String.join (chosen.map fun path => (verdict files quiet path).notes),
        failure? (chosen.map (verdict files quiet))⟩ := by
  rw [check, checkAll_of_loaded hf (loaded_new files paths settings) hc, List.map_map,
    List.map_map]
  rfl

theorem failure?_singleton (v : Verdict) : (failure? [v]).isSome = !v.passed := by
  cases hv : v.passed <;> simp [failure?, hv]

/-- What checking one of the files alone leaves. -/
theorem check_singleton (hf : Distinguished (texts files paths)) (settings : Settings)
    {path : String} (hp : path ∈ paths) (quiet : Bool) :
    (check files quiet (Session.new settings) [path]).text = (verdict files quiet path).text ∧
      (check files quiet (Session.new settings) [path]).notes = (verdict files quiet path).notes ∧
      (check files quiet (Session.new settings) [path]).failure.isSome =
        !(verdict files quiet path).passed := by
  rw [check_eq hf settings (List.cons_subset.mpr ⟨hp, List.nil_subset _⟩)]
  exact ⟨by simp, by simp, failure?_singleton _⟩

/-- The output for all files is made up of the outputs for each of them. -/
theorem check_concat (hf : Distinguished (texts files paths)) (settings : Settings)
    (quiet : Bool) :
    let all := check files quiet (Session.new settings) paths
    let alone (path : String) := check files quiet (Session.new settings) [path]
    let count := paths.countP fun path => (alone path).failure.isSome
    all.text = String.join (paths.map fun path => (alone path).text) ∧
      all.notes = String.join (paths.map fun path => (alone path).notes) ∧
      all.failure = if count = 0 then none
        else some s!"{count} of {paths.length} template(s) failed the check" := by
  intro all alone count
  have halone (path : String) (hp : path ∈ paths) := check_singleton hf settings hp quiet
  have hall : all = _ := check_eq hf settings (List.Subset.refl paths) quiet
  have hcount : (paths.map (verdict files quiet)).countP (fun v => !v.passed) = count := by
    rw [List.countP_map]
    exact List.countP_congr fun path hp => by simp [alone, (halone path hp).2.2]
  rw [hall]
  refine ⟨?_, ?_, ?_⟩
  · exact congrArg String.join (List.map_congr_left fun path hp => (halone path hp).1.symm)
  · exact congrArg String.join (List.map_congr_left fun path hp => (halone path hp).2.1.symm)
  · show failure? (paths.map (verdict files quiet)) = _
    simp only [failure?, hcount, List.length_map]

end

theorem join_map_empty {α : Type} (as : List α) : String.join (as.map fun _ => "") = "" := by
  induction as with
  | nil => rfl
  | cons a as ih => rw [List.map_cons, String.join_cons, ih, String.empty_append]

end Command

open Command in
/-- A command line that checks some files writes what checking them one by one would write, in their
order, and fails if one of them alone fails. Unless the settings cannot be read, which is a failure
of any check, its message counts the files that fail alone. Different texts must have different
fingerprints. -/
theorem check_one_by_one {around : Surroundings} {paths : List String}
    (hf : Distinguished (texts around.files paths)) (now : Moment) (quiet : Bool)
    (config : Option String) :
    let all := run around now ⟨quiet, config, .check paths⟩
    let alone (path : String) := run around now ⟨quiet, config, .check [path]⟩
    let count := paths.countP fun path => (alone path).failure.isSome
    all.text = String.join (paths.map fun path => (alone path).text) ∧
      all.notes = String.join (paths.map fun path => (alone path).notes) ∧
      (paths ≠ [] → (all.failure.isSome ↔ ∃ path ∈ paths, (alone path).failure.isSome)) ∧
      ∀ settings, Settings.load around config = .ok settings → all.failure =
        if count = 0 then none
        else some s!"{count} of {paths.length} template(s) failed the check" := by
  intro all alone count
  cases hload : Settings.load around config with
  | error e =>
    have hrun (chosen : List String) :
        run around now ⟨quiet, config, .check chosen⟩ = .ofFailure e.message := by
      rw [run, hload]
    have halone : alone = fun _ => .ofFailure e.message := funext fun path => hrun [path]
    have hall : all = .ofFailure e.message := hrun paths
    rw [hall, halone]
    refine ⟨(join_map_empty paths).symm, (join_map_empty paths).symm, fun hp => ?_, ?_⟩
    · obtain ⟨path, hm⟩ := List.exists_mem_of_ne_nil paths hp
      exact iff_of_true rfl ⟨path, hm, rfl⟩
    · rintro settings ⟨⟩
  | ok settings =>
    have hrun (chosen : List String) : run around now ⟨quiet, config, .check chosen⟩ =
        check around.files quiet (Session.new settings) chosen := by
      rw [run, hload]
    have halone : alone = fun path => check around.files quiet (Session.new settings) [path] :=
      funext fun path => hrun [path]
    have hall : all = check around.files quiet (Session.new settings) paths := hrun paths
    have hcount : count = paths.countP fun path =>
        (check around.files quiet (Session.new settings) [path]).failure.isSome := by
      simp only [count, halone]
    obtain ⟨htext, hnotes, hfailure⟩ := check_concat hf settings quiet
    rw [← hcount, ← hall] at hfailure
    rw [hall, halone]
    refine ⟨htext, hnotes, fun _ => ?_, ?_⟩
    · have hsome : all.failure.isSome ↔ count ≠ 0 := by
        rw [hfailure]
        split <;> simp_all
      rw [← hall, hsome, hcount, ← Nat.pos_iff_ne_zero, List.countP_pos_iff]
    · rintro _ ⟨⟩
      rw [← hall]
      exact hfailure

open Command in
/-- A template, a text under the same name that leaves a block open, a path without a file, a copy
of the template, and the second path again. -/
theorem check_one_by_one_mixed :
    let good := "---\nname: offer\n---\nDear \x7b\x7b Name \x7d\x7d\n"
    let bad := "---\nname: offer\n---\n\x7b% if Name %\x7d\n"
    let tree : FileTree := .ofList [("a.md", good), ("b.md", good), ("c.md", bad)]
    let around : Surroundings := ⟨tree.toFiles, none, "home"⟩
    let paths := ["a.md", "c.md", "d.md", "b.md", "c.md"]
    let now : Moment := ⟨⟨2024, 6, 1⟩, .midnight, 0⟩
    let all := run around now ⟨false, none, .check paths⟩
    let unclosed := "✗ c.md\nERROR: Block Mismatch\n\n`\x7b% if %\x7d` at 4:1 is never closed\n\n" ++
      "4 | \x7b% if Name %\x7d\n  | ^\n\nSUGGESTION: every `\x7b% if %\x7d` needs an " ++
      "`\x7b% endif %\x7d` and every `\x7b% for %\x7d` an `\x7b% endfor %\x7d`, " ++
      "closed innermost first.\n\n"
    let missing := "✗ d.md\nFailed to read template file: d.md: " ++
      "No such file or directory (os error 2)\n"
    Distinguished (texts around.files paths) ∧
      all.text = "✓ a.md (offer v0, 3 top-level nodes)\n✓ b.md (offer v0, 3 top-level nodes)\n" ∧
      all.notes = unclosed ++ missing ++ unclosed ∧
      (∃ path ∈ paths, (run around now ⟨false, none, .check [path]⟩).failure.isSome) ∧
      all.failure = some "3 of 5 template(s) failed the check" := by
  intro good bad tree around paths now all unclosed missing
  have htexts : texts around.files paths = [good, bad, good, bad] := by decide +kernel
  have hne : Text.fingerprint good ≠ Text.fingerprint bad := by decide +kernel
  have hf : Distinguished (texts around.files paths) := by
    rw [htexts]
    simp [Distinguished, hne, hne.symm]
  have hload : Settings.load around none = .ok .standard :=
    toOption_eq_some.mp (by decide +kernel)
  obtain ⟨htext, hnotes, hsome, hfailure⟩ := check_one_by_one hf now false none
  have hall : all.failure = some "3 of 5 template(s) failed the check" :=
    (hfailure _ hload).trans (by decide +kernel)
  refine ⟨hf, htext.trans (by decide +kernel), hnotes.trans (by decide +kernel),
    (hsome (by decide)).mp ?_, hall⟩
  show all.failure.isSome
  rw [hall]
  rfl

end Proforma
