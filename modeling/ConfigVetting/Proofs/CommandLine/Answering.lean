import ConfigVetting.CommandLine.Service
import ConfigVetting.Proofs.Json.Printing
import ConfigVetting.Proofs.Schema.Tables

/-! # Answers to the lines of an input

Each line of the input that is not blank asks for an answer on a line of its own. The lines are heard up to
the first one that is not JSON, which is answered; what comes behind it is lost. So all lines are answered
as they ask exactly if nothing is asked behind such a line
(`ConfigVetting.CommandLine.Service.answersEach_answers_iff`).
-/

namespace ConfigVetting.CommandLine

/-- Whether a line asks for something that is not JSON. -/
def IsGarbled (line : String) : Prop :=
  Text.allBlank line = false ∧ Json.parse? line = none

instance (line : String) : Decidable (IsGarbled line) :=
  inferInstanceAs (Decidable (_ ∧ _))

/-- The lines that ask for an answer. -/
def asked (lines : List String) : List String :=
  lines.filter fun line => !Text.allBlank line

/-- The lines up to the first one that is garbled. -/
def heard : List String → List String
  | [] => []
  | line :: lines => if IsGarbled line then [line] else line :: heard lines

/-- Whether nothing is asked behind a line that is garbled. -/
def HeardOut (lines : List String) : Prop :=
  lines.Pairwise fun line later => IsGarbled line → Text.allBlank later = true

/-- The lines are those that are heard and some behind these, and nothing is asked behind a garbled line
exactly if the lines behind are blank. -/
theorem exists_eq_heard_append (lines : List String) : ∃ behind, lines = heard lines ++ behind ∧
    (HeardOut lines ↔ ∀ line ∈ behind, Text.allBlank line = true) := by
  induction lines with
  | nil => exact ⟨[], rfl, by simp [HeardOut]⟩
  | cons line lines ih =>
      rw [heard, HeardOut, List.pairwise_cons]
      by_cases garbled : IsGarbled line
      · rw [if_pos garbled]
        refine ⟨lines, rfl, fun ⟨later, _⟩ blank member => later blank member garbled, fun silent => ?_⟩
        refine ⟨fun later member _ => silent later member, ?_⟩
        exact List.pairwise_of_forall_mem_list fun _ _ later member _ => silent later member
      · rw [if_neg garbled]
        obtain ⟨behind, whole, silent⟩ := ih
        refine ⟨behind, congrArg (line :: ·) whole, ?_⟩
        rw [← silent]
        exact and_iff_right fun _ _ garbledLine => absurd garbledLine garbled

namespace Service

/-- What vetting a batch comes to, with the service after it: the session takes the batch once the listener
of the cache has caught up. -/
structure Vets (service : Service) (edits : List Edit) (outcome : Except Rejection Unit)
    (later : Service) : Prop where
  engine : later.engine = service.engine
  ran : World.run (do
    Listener.settle service.engine.setting
    service.session.validate service.engine edits) service.world =
      ((outcome, later.session), later.world)

/-- Whether a line is answered as it asks, with the service after it. -/
inductive AnswersLine (service : Service) (line : String) : List Json → Service → Prop where
  | blank (silent : Text.allBlank line = true) : AnswersLine service line [] service
  | garbled (noJson : IsGarbled line) :
      AnswersLine service line [refused (.input "the line holds no JSON")] service
  | other {value : Json} (asks : Text.allBlank line = false) (read : Json.parse? line = some value)
      (noBatch : Edit.listOfJson? value.settled = none) :
      AnswersLine service line [refused (.request "the line holds no batch of edits")] service
  | accepted {value : Json} {edits : List Edit} {later : Service} (asks : Text.allBlank line = false)
      (read : Json.parse? line = some value) (batch : Edit.listOfJson? value.settled = some edits)
      (vets : service.Vets edits (.ok ()) later) : AnswersLine service line [accepted] later
  | rejected {value : Json} {edits : List Edit} {rejection : Rejection} {later : Service}
      (asks : Text.allBlank line = false) (read : Json.parse? line = some value)
      (batch : Edit.listOfJson? value.settled = some edits)
      (vets : service.Vets edits (.error rejection) later) :
      AnswersLine service line [rejected rejection] later

/-- Whether each line is answered as it asks, one after another. -/
inductive AnswersEach : Service → List String → List Json → Prop where
  | nil (service : Service) : AnswersEach service [] []
  | cons {service later : Service} {line : String} {lines : List String} {answer answers : List Json}
      (first : service.AnswersLine line answer later) (rest : later.AnswersEach lines answers) :
      AnswersEach service (line :: lines) (answer ++ answers)

variable {service later : Service} {line : String} {lines blanks : List String}
  {answer answers : List Json}

/-- A line that asks for something has one answer, a blank one has none. -/
theorem AnswersLine.length_eq (answered : service.AnswersLine line answer later) :
    answer.length = (asked [line]).length := by
  cases answered with
  | blank silent => simp [asked, silent]
  | garbled noJson => simp [asked, noJson.1]
  | other asks => simp [asked, asks]
  | accepted asks => simp [asked, asks]
  | rejected asks => simp [asked, asks]

/-- There are as many answers as lines that ask for one. -/
theorem AnswersEach.length_eq (each : service.AnswersEach lines answers) :
    answers.length = (asked lines).length := by
  induction each with
  | nil => rfl
  | @cons _ _ line lines _ _ first _ ih =>
      rw [List.length_append, first.length_eq, ih, ← List.length_append]
      exact congrArg List.length (List.filter_append [line] lines).symm

/-- Nothing is answered behind the last line that asks for something. -/
theorem AnswersEach.append_blanks (each : service.AnswersEach lines answers)
    (silent : ∀ line ∈ blanks, Text.allBlank line = true) :
    service.AnswersEach (lines ++ blanks) answers := by
  induction each with
  | nil service =>
      induction blanks with
      | nil => exact .nil service
      | cons line blanks ih =>
          rw [List.forall_mem_cons] at silent
          exact .cons (.blank silent.1) (ih silent.2)
  | cons first _ ih => exact .cons first ih

private theorem exists_vets (service : Service) (edits : List Edit) :
    ∃ outcome, service.Vets edits outcome (service.vet edits).2 :=
  ⟨_, rfl, rfl⟩

private theorem Vets.vet_of_ok {edits : List Edit} (vets : service.Vets edits (.ok ()) later) :
    service.vet edits = (accepted, later) := by
  obtain ⟨engine, ran⟩ := vets
  unfold World.run at ran
  unfold vet
  dsimp only
  rw [ran, ← engine]

private theorem Vets.vet_of_error {edits : List Edit} {rejection : Rejection}
    (vets : service.Vets edits (.error rejection) later) :
    service.vet edits = (rejected rejection, later) := by
  obtain ⟨engine, ran⟩ := vets
  unfold World.run at ran
  unfold vet
  dsimp only
  rw [ran, ← engine]

/-- A batch is answered with what vetting it comes to. -/
theorem answersLine_vet {value : Json} {edits : List Edit} (asks : Text.allBlank line = false)
    (read : Json.parse? line = some value) (batch : Edit.listOfJson? value.settled = some edits) :
    service.AnswersLine line [(service.vet edits).1] (service.vet edits).2 := by
  obtain ⟨outcome, vets⟩ := service.exists_vets edits
  cases outcome with
  | ok _ =>
      rw [congrArg Prod.fst vets.vet_of_ok]
      exact .accepted asks read batch vets
  | error rejection =>
      rw [congrArg Prod.fst vets.vet_of_error]
      exact .rejected asks read batch vets

/-- Each line is answered as it asks, and the input goes on unless the line is garbled. -/
theorem exists_answersLine (service : Service) (line : String) :
    ∃ answer later, service.AnswersLine line answer later ∧ ∀ lines, service.answers (line :: lines) =
      answer ++ if IsGarbled line then [] else later.answers lines := by
  by_cases silent : Text.allBlank line = true
  · have replied : service.reply line = .passed := if_pos silent
    refine ⟨[], service, .blank silent, fun lines => ?_⟩
    rw [answers, replied, if_neg fun garbled => nomatch garbled.1.symm.trans silent]
    rfl
  have asks : Text.allBlank line = false := Bool.not_eq_true _ |>.mp silent
  cases read : Json.parse? line with
  | none =>
      have replied : service.reply line = .ended (refused (.input "the line holds no JSON")) := by
        rw [reply, if_neg silent, read]
      refine ⟨_, service, .garbled ⟨asks, read⟩, fun lines => ?_⟩
      rw [answers, replied, if_pos ⟨asks, read⟩, List.append_nil]
  | some value =>
      have plain : ¬ IsGarbled line := fun garbled => nomatch read.symm.trans garbled.2
      cases batch : Edit.listOfJson? value.settled with
      | none =>
          have replied : service.reply line =
              .answered (refused (.request "the line holds no batch of edits")) service := by
            rw [reply, if_neg silent, read]
            dsimp only
            rw [batch]
          refine ⟨_, service, .other asks read batch, fun lines => ?_⟩
          rw [answers, replied, if_neg plain, List.singleton_append]
      | some edits =>
          have replied : service.reply line =
              .answered (service.vet edits).1 (service.vet edits).2 := by
            rw [reply, if_neg silent, read]
            dsimp only
            rw [batch]
          refine ⟨_, _, answersLine_vet asks read batch, fun lines => ?_⟩
          rw [answers, replied, if_neg plain, List.singleton_append]

/-- The lines that are heard are answered as they ask. -/
theorem answersEach_heard (service : Service) (lines : List String) :
    service.AnswersEach (heard lines) (service.answers lines) := by
  induction lines generalizing service with
  | nil => exact .nil service
  | cons line lines ih =>
      obtain ⟨answer, later, first, whole⟩ := service.exists_answersLine line
      rw [whole, heard]
      by_cases garbled : IsGarbled line
      · rw [if_pos garbled, if_pos garbled]
        exact .cons first (.nil later)
      · rw [if_neg garbled, if_neg garbled]
        exact .cons first (ih later)

/-- **Answers to the lines of an input.** The lines up to the first one that is not JSON are answered one
after another as they ask, each answer on a line of its own. This goes for all lines, and there are as many
answers as lines that are not blank, exactly if nothing but blank lines comes behind one that is not
JSON. -/
theorem answersEach_answers_iff (service : Service) (lines : List String) :
    service.AnswersEach (heard lines) (service.answers lines) ∧
    (∀ answer ∈ service.answers lines, Text.IsLine answer.render) ∧
    (service.AnswersEach lines (service.answers lines) ↔ HeardOut lines) ∧
    ((service.answers lines).length = (asked lines).length ↔ HeardOut lines) := by
  obtain ⟨behind, whole, heardOut_iff⟩ := exists_eq_heard_append lines
  have each := service.answersEach_heard lines
  have count : (service.answers lines).length = (asked lines).length → HeardOut lines := by
    intro same
    have split : asked lines = asked (heard lines) ++ asked behind := by
      rw [asked, asked, asked, ← List.filter_append, ← whole]
    rw [each.length_eq, split, List.length_append, Nat.left_eq_add, List.length_eq_zero_iff] at same
    refine heardOut_iff.mpr fun line member => ?_
    simpa using List.filter_eq_nil_iff.mp same line member
  have all : HeardOut lines → service.AnswersEach lines (service.answers lines) := by
    intro out
    have longer := each.append_blanks (heardOut_iff.mp out)
    rwa [← whole] at longer
  exact ⟨each, fun answer _ => answer.isLine_render, ⟨fun held => count held.length_eq, all⟩,
    ⟨count, fun out => (all out).length_eq⟩⟩

/-- The batch behind a line that is not JSON has no answer. -/
theorem not_answersEach_garbledFirst : ∃ service,
    Service.start { schemaDir := "schema" } (Schema.build [] Schema.usualDelimiter) { database := 4 } =
      .ok service ∧
    (service.answers ["[]"]).map Json.render = [CommandLine.accepted.render] ∧
    (service.answers ["?", "[]"]).length = 1 ∧
    ¬ service.AnswersEach ["?", "[]"] (service.answers ["?", "[]"]) := by
  have facts : (Service.start { schemaDir := "schema" } (Schema.build [] Schema.usualDelimiter)
      { database := 4 }).toOption.any fun service =>
        (service.answers ["[]"]).map Json.render = [CommandLine.accepted.render] ∧
        (service.answers ["?", "[]"]).length = 1 := by
    decide +kernel
  obtain ⟨service, started, held⟩ := (Option.any_eq_true _ _).mp facts
  obtain ⟨taken, once⟩ := of_decide_eq_true held
  refine ⟨service, Except.toOption_eq_some_iff.mp started, taken, once, fun each => ?_⟩
  have twice : (asked ["?", "[]"]).length = 2 := by decide
  have answered := each.length_eq
  omega

end Service

end ConfigVetting.CommandLine
