import FilterQuery.Command
import FilterQuery.Proofs.Document
import FilterQuery.Proofs.InputLines
import FilterQuery.Settings.Plain
import Mathlib.Data.List.Forall2

/-!
# Runs of the command

The command handles its expressions one after the other and collects what each of them gives.

**Theorem (`run_independent`).** If nothing sets an option, a run prints the documents of the
expressions that compile, one on each line, and reports the others, both in the order of the
expressions; its status says whether there were any others. Expressions on the lines of the input
are handled just like the same expressions given as arguments.

**Libraries.** How flags are parsed and settings read is a parameter of a run. The theorem holds
whatever the libraries do, as long as they do what their documentation says (`Documented`), and
`plain_documented` shows that this can be had.

**Outcomes form a monoid.** What a run leaves behind is put together by `Outcome.andThen`, which is
associative and has `Outcome.silent` as its neutral element. So a run over a list of expressions is
the first expression's outcome and then that of the others (`handleAll_cons`).
-/

namespace FilterQuery

/-! ## Outcomes -/

namespace Outcome

theorem andThen_assoc (a b c : Outcome) : (a.andThen b).andThen c = a.andThen (b.andThen c) := by
  by_cases hc : c.status = 0 <;> simp [andThen, hc]

instance : Std.Associative andThen := ⟨andThen_assoc⟩

theorem silent_andThen (a : Outcome) : silent.andThen a = a := by
  obtain ⟨status, stdout, stderr⟩ := a
  by_cases h : status = 0
  · simp [andThen, silent, h]
  · simp [andThen, silent, h]

theorem andThen_silent (a : Outcome) : a.andThen silent = a := by
  simp [andThen, silent]

end Outcome

namespace Command

/-- The document of an expression that compiles. -/
def document? (limits : Limits) (expression : Bytes) : Option Bytes :=
  match compile limits expression with
  | .ok c => some c.document
  | .error _ => none

/-- The report on an expression that does not compile. -/
def report? (limits : Limits) (expression : Bytes) : Option Bytes :=
  match compile limits expression with
  | .ok _ => none
  | .error e => some (ascii "filtres: rejected " ++ Quoted.quote expression ++ ascii ": "
      ++ e.message ++ [0x0A])

theorem handleAll_cons (limits : Limits) (settings : Settings) (e : Bytes) (es : List Bytes) :
    handleAll limits settings (e :: es) =
      (handle limits settings e).andThen (handleAll limits settings es) := by
  calc handleAll limits settings (e :: es)
      = (es.map (handle limits settings)).foldl Outcome.andThen
          ((handle limits settings e).andThen .silent) := by
        rw [handleAll, List.map_cons, List.foldl_cons, Outcome.silent_andThen,
          Outcome.andThen_silent]
    _ = (handle limits settings e).andThen (handleAll limits settings es) := List.foldl_assoc

/-- One expression: its document on a line, or the report on it. -/
theorem handle_defaults (limits : Limits) (e : Bytes) :
    handle limits .defaults e = ⟨(report? limits e).isSome.toNat,
      (document? limits e).toList.flatMap (· ++ [0x0A]), (report? limits e).toList.flatten⟩ := by
  have htext : ascii "filtres: rejected " = ascii "filtres: " ++ ascii "rejected " := by decide
  simp only [handle, Settings.defaults, printQuery, document?, report?]
  cases compile limits e with
  | ok c => simp [Outcome.printed]
  | error err => simp [rejected, Outcome.complaint, htext]

/-- **Expressions are independent of each other.** -/
theorem handleAll_defaults (limits : Limits) (es : List Bytes) :
    handleAll limits .defaults es = ⟨(es.any fun e => (report? limits e).isSome).toNat,
      (es.filterMap (document? limits)).flatMap (· ++ [0x0A]),
      (es.filterMap (report? limits)).flatten⟩ := by
  induction es with
  | nil => rfl
  | cons e es ih =>
    rw [handleAll_cons, handle_defaults, ih, Outcome.andThen, Outcome.mk.injEq]
    refine ⟨?_, ?_, ?_⟩
    · rw [List.any_cons]
      cases es.any fun e => (report? limits e).isSome <;> simp
    · cases hdocument : document? limits e <;> simp [hdocument]
    · cases hreport : report? limits e <;> simp [hreport]

/-- A document has no line feed in it. -/
theorem not_mem_document {limits : Limits} {e document : Bytes}
    (h : document? limits e = some document) : 0x0A ∉ document := by
  simp only [document?] at h
  split at h
  · next c hcompile =>
    cases h
    obtain ⟨tree, -, hparse, -⟩ := compile_eq_ok.1 hcompile
    obtain ⟨-, -, -, -, -, hcontrol⟩ := read_of_compile hcompile hparse
    intro hmem
    exact absurd (hcontrol _ hmem) (by decide)
  · cases h

theorem count_lines {documents : List Bytes} (h : ∀ document ∈ documents, 0x0A ∉ document) :
    (documents.flatMap (· ++ [0x0A])).count 0x0A = documents.length := by
  induction documents with
  | nil => rfl
  | cons document documents ih =>
    obtain ⟨hfirst, hrest⟩ := List.forall_mem_cons.1 h
    rw [List.flatMap_cons, List.count_append, List.count_append, List.count_eq_zero.2 hfirst,
      ih hrest, List.length_cons]
    simp [Nat.add_comm]

end Command

/-! ## Settings -/

namespace Libraries

variable {File : Type}

/-- What the documentation of the libraries says, as far as it matters here. -/
structure Documented (L : Libraries File) : Prop where
  /-- Nothing behind `--` is a flag. -/
  terminator : ∀ es, L.parseFlags (ascii "--" :: es) = .ok ⟨[], es⟩
  noArguments : L.parseFlags [] = .ok ⟨[], []⟩
  /-- The text of a setting that neither a flag nor a variable gives is its default. -/
  text : ∀ default flags key, flags.value? key = none → L.environment key = none →
    L.text default flags key = default
  /-- Settings that no layer gives have their defaults. -/
  decode : ∀ defaults flags file, (∀ key, flags.value? key = none) →
    (∀ key, L.environment key = none) → (∀ f ∈ file, ∀ key, L.fileSets f key = false) →
    L.decode defaults flags file = .ok defaults

/-- No environment variable and no settings file sets an option. A file may be there, with other
things in it. -/
structure SetsNothing (L : Libraries File) : Prop where
  environment : ∀ key, L.environment key = none
  file : ∃ file, L.readStandard = .ok file ∧ ∀ f ∈ file, ∀ key, L.fileSets f key = false

/-- The plain libraries do what the documentation says. -/
theorem plain_documented (s : Surroundings) : (plain s).Documented where
  terminator es := rfl
  noArguments := rfl
  text default flags key hflag hvariable := by
    have hvariable : s.setVariable? key.envName = none := hvariable
    simp [plain, Plain.text, Plain.textOr, Plain.layered, hflag, hvariable, Except.toOption]
  decode defaults flags file hflags hvariables hfile := by
    have hvalues : Plain.layered flags s file = fun _ => none := by
      funext key
      have hvariable : s.setVariable? key.envName = none := hvariables key
      simp only [Plain.layered, hflags, hvariable]
      cases file with
      | none => rfl
      | some f => exact Option.isNone_iff_eq_none.1 (Option.isSome_eq_false_iff.1 (hfile f rfl key))
    simp only [plain, hvalues]
    rfl

end Libraries

namespace Command

variable {File : Type} {L : Libraries File}

theorem load_defaults (hL : L.Documented) (hs : L.SetsNothing) {args es : List Bytes}
    (hflags : L.parseFlags args = .ok ⟨[], es⟩) : Settings.load L args = .ok (.defaults, es) := by
  obtain ⟨file, hfile, hsets⟩ := hs.file
  have hgiven : ∀ key, Flags.value? ⟨[], es⟩ key = none := fun _ => rfl
  have hpath : L.text Settings.defaults.config ⟨[], es⟩ .config = [] :=
    hL.text _ _ _ (hgiven _) (hs.environment _)
  have hread : Settings.readFile L ⟨[], es⟩ = .ok file := by
    simp only [Settings.readFile, hpath, hfile, Except.mapError]
  simp only [Settings.load, hflags, hread, hL.decode _ _ _ hgiven hs.environment hsets]

theorem run_arguments (hL : L.Documented) (hs : L.SetsNothing) (limits : Limits) {es : List Bytes}
    (hne : es ≠ []) (input : Bytes) :
    run L limits (ascii "--" :: es) input = handleAll limits .defaults es := by
  simp [run, start, load_defaults hL hs (hL.terminator es), finish, Settings.defaults, hne]

theorem run_input (hL : L.Documented) (hs : L.SetsNothing) (limits : Limits) (input : Bytes) :
    run L limits [] input = finish limits input (.lines .defaults) := by
  simp [run, start, load_defaults hL hs hL.noArguments, finish, Settings.defaults]

/-! ## Expressions on lines -/

variable {input : Bytes} {lines trimmed : List Bytes}

theorem expressionsOf_eq (hlines : Lined input lines) (htrims : List.Forall₂ Trims lines trimmed) :
    expressionsOf input = trimmed.filter (· ≠ []) := by
  have hmap : trimmed = lines.map Blank.trim := by
    clear hlines
    induction htrims with
    | nil => rfl
    | cons htrim _ ih => rw [trims_iff.1 htrim, ih, List.map_cons]
  rw [expressionsOf, ← lined_iff.1 hlines, ← hmap]
  congr 1
  funext e
  cases e <;> rfl

theorem hasLongLine_eq_true (hlines : Lined input lines) :
    hasLongLine input = true ↔ ∃ line ∈ lines, lineLimit ≤ line.length := by
  simp [hasLongLine, ← lined_iff.1 hlines]

theorem exists_trimmed (lines : List Bytes) : ∃ trimmed, List.Forall₂ Trims lines trimmed := by
  induction lines with
  | nil => exact ⟨[], .nil⟩
  | cons line lines ih =>
    obtain ⟨e, he⟩ := exists_trims line
    obtain ⟨trimmed, htrims⟩ := ih
    exact ⟨e :: trimmed, .cons he htrims⟩

end Command

/-- **A run handles its expressions independently.** If nothing sets an option, the standard output
has the documents of the expressions that compile, in order and one on each line, and as many line
feeds as that; there is one report for each of the others, and the status is 1 if there is one and 0
otherwise. A text that has no line of 65536 bytes or more is handled like the trimmed lines of it
that are not empty, given as arguments; with a longer line nothing is compiled. -/
theorem run_independent {File : Type} {L : Libraries File} (hL : L.Documented) (hs : L.SetsNothing)
    (limits : Limits) (input : Bytes) :
    (∀ es, es ≠ [] →
      let outcome := Command.run L limits (ascii "--" :: es) input
      let documents := es.filterMap (Command.document? limits)
      let reports := es.filterMap (Command.report? limits)
      outcome.stdout = documents.flatMap (· ++ [0x0A]) ∧
      outcome.stdout.count 0x0A = documents.length ∧
      outcome.stderr = reports.flatten ∧
      outcome.status = if ∃ e ∈ es, (Command.report? limits e).isSome then 1 else 0) ∧
    (∃ lines trimmed, Lined input lines ∧ List.Forall₂ Trims lines trimmed) ∧
    ∀ lines trimmed, Lined input lines → List.Forall₂ Trims lines trimmed →
      let es := trimmed.filter (· ≠ [])
      ((∀ line ∈ lines, line.length < 65536) →
        (es = [] → Command.run L limits [] input = ⟨0, [], []⟩) ∧
        (es ≠ [] → ∀ other,
          Command.run L limits [] input = Command.run L limits (ascii "--" :: es) other)) ∧
      ((∃ line ∈ lines, 65536 ≤ line.length) →
        (Command.run L limits [] input).status = 2 ∧
        (Command.run L limits [] input).stdout = []) := by
  refine ⟨fun es hne => ?_, ?_,
    fun lines trimmed hlines htrims => ⟨fun hshort => ?_, fun hlong => ?_⟩⟩
  · rw [Command.run_arguments hL hs limits hne, Command.handleAll_defaults]
    refine ⟨rfl, Command.count_lines fun document hdocument => ?_, rfl, ?_⟩
    · obtain ⟨e, -, he⟩ := List.mem_filterMap.1 hdocument
      exact Command.not_mem_document he
    · simp only [← List.any_eq_true]
      cases es.any fun e => (Command.report? limits e).isSome <;> rfl
  · obtain ⟨trimmed, htrims⟩ := Command.exists_trimmed (Bytes.lines input)
    exact ⟨_, trimmed, Bytes.lined_lines input, htrims⟩
  · have hnot : Command.hasLongLine input = false := by
      rw [← Bool.not_eq_true, Command.hasLongLine_eq_true hlines]
      rintro ⟨line, hline, hle⟩
      exact absurd (hshort line hline) (Nat.not_lt.2 hle)
    rw [Command.run_input hL hs, Command.finish, hnot, Command.expressionsOf_eq hlines htrims]
    refine ⟨fun hnil => ?_, fun hne other => ?_⟩
    · rw [hnil]
      rfl
    · rw [Command.run_arguments hL hs limits hne]
      rfl
  · rw [Command.run_input hL hs, Command.finish, (Command.hasLongLine_eq_true hlines).2 hlong]
    exact ⟨rfl, rfl⟩

/-- An expression that is rejected stands before one that compiles: on lines, and as arguments. The
settings file is there, but what is in it is no setting. -/
theorem run_independent_mixed :
    let L := Libraries.plain ⟨[], [(ascii "filtres.yaml", ascii "other: 1\n")]⟩
    L.Documented ∧ L.SetsNothing ∧
    ∃ outcome, Command.run L {} [ascii "--", ascii "x ==", ascii "x == 1"] [] = outcome ∧
      outcome.status = 1 ∧ outcome.stdout.count 0x0A = 1 ∧
      Command.run L {} [] (ascii "x ==\n\n  x == 1 ") = outcome := by
  intro L
  have hL : L.Documented := Libraries.plain_documented _
  have hs : L.SetsNothing := by
    refine ⟨fun _ => rfl, some [(ascii "other", .integer 1)], rfl, ?_⟩
    rintro f ⟨⟩ key
    cases key <;> rfl
  obtain ⟨-, hcount, -, hstatus⟩ :=
    (run_independent hL hs {} []).1 [ascii "x ==", ascii "x == 1"] (by simp)
  refine ⟨hL, hs, _, rfl, ?_, ?_, ?_⟩
  · rw [hstatus, if_pos ⟨ascii "x ==", by simp, by decide⟩]
  · rw [hcount]
    decide +kernel
  · have hlines : Lined (ascii "x ==\n\n  x == 1 ") [ascii "x ==", [], ascii "  x == 1 "] :=
      lined_iff.2 (by decide)
    have htrims : List.Forall₂ Trims [ascii "x ==", [], ascii "  x == 1 "]
        [ascii "x ==", [], ascii "x == 1"] :=
      .cons (trims_iff.2 (by decide)) (.cons (trims_iff.2 (by decide))
        (.cons (trims_iff.2 (by decide)) .nil))
    exact ((((run_independent hL hs {} _).2.2 _ _ hlines htrims).1 (by decide)).2 (by decide) [])

end FilterQuery
