import Lispbox.Proofs.Service.Chronicle

/-!
# A run is told in two ways

The last message of a run and the response to the request for it tell the same, in two encodings:
the message has the text of a JSON document for its data, the response has the document itself. Both
go out as lines, so they are compared there (`Service.Agreement`). That the text is read as the
document again is assumed of the reader, and only for the document in question, which has no doubles
that JSON cannot express (`Value.toJson_isProper`).

* `Value.normal_toJson`, `Explanation.normal_toJson`: documents in normal form.
* `line_event`, `line_result`: the members of the two lines.
* `closing_agreement`: the last message of a run beside its result.
* `responses_agree`: all runs of a connection.
-/
namespace Lispbox

/-! ## Documents -/

namespace Json

mutual
/-- All doubles are finite; other ones have no text of their own. -/
def IsProper : Json → Prop
  | .float x => isFinite x = true
  | .arr items => AreProper items
  | .obj members => AreProperMembers members
  | .null | .bool _ | .whole _ | .str _ => True

/-- The items of an array are proper. -/
def AreProper : List Json → Prop
  | [] => True
  | v :: vs => v.IsProper ∧ AreProper vs

/-- The members of an object are proper. -/
def AreProperMembers : List (String × Json) → Prop
  | [] => True
  | (_, v) :: ms => v.IsProper ∧ AreProperMembers ms
end

end Json

mutual
/-- A value has a document without doubles that are not finite. -/
theorem Value.toJson_isProper : ∀ v : Value, v.toJson.IsProper
  | .nil | .bool _ | .integer _ | .text _ | .function _ _ _ | .native _ | .module _ _ _
  | .deferred _ _ _ _ _ => trivial
  | .float x => by
    unfold Value.toJson
    split
    · next h => exact h
    · trivial
  | .list items => jsonItems_areProper items

theorem jsonItems_areProper : ∀ items : List Value, Json.AreProper (jsonItems items)
  | [] => trivial
  | v :: vs => ⟨v.toJson_isProper, jsonItems_areProper vs⟩
end

mutual
/-- The document of a value has no objects, so it is in normal form. -/
theorem Value.normal_toJson : ∀ v : Value, v.toJson.normal = v.toJson
  | .nil | .bool _ | .integer _ | .text _ | .function _ _ _ | .native _ | .module _ _ _
  | .deferred _ _ _ _ _ => rfl
  | .float x => by
    unfold Value.toJson
    split <;> rfl
  | .list items => congrArg Json.arr (normalItems_jsonItems items)

theorem normalItems_jsonItems :
    ∀ items : List Value, Json.normalItems (jsonItems items) = jsonItems items
  | [] => rfl
  | v :: vs => by rw [jsonItems, Json.normalItems, v.normal_toJson, normalItems_jsonItems vs]
end

theorem Explanation.toJson_isProper (e : Explanation) : e.toJson.IsProper :=
  ⟨trivial, trivial, trivial, trivial, trivial, trivial, trivial⟩

/-- The six texts of an explanation, in the order of their keys. -/
theorem Explanation.normal_toJson (e : Explanation) :
    e.toJson.normal = .obj [("info", .str e.info), ("name", .str e.name),
      ("traceback", .str e.traceback), ("what", .str e.what), ("where", .str e.whereText),
      ("why", .str e.why)] := rfl

/-- The document whose text is the data of the last message. -/
def Outcome.document? : Outcome → Option Json
  | .completed v => some v.toJson
  | .failed e => some e.toJson
  | .compileFailed _ | .interrupted => none

theorem Outcome.document_isProper {o : Outcome} {j : Json} (h : o.document? = some j) :
    j.IsProper := by
  cases o with
  | completed v => exact Option.some.inj h ▸ v.toJson_isProper
  | failed e => exact Option.some.inj h ▸ e.toJson_isProper
  | compileFailed e => cases h
  | interrupted => cases h

theorem Outcome.kind_known (o : Outcome) :
    o.kind ∈ ["completed", "failed", "compile_failed", "interrupted"] := by
  cases o <;> simp [Outcome.kind]

namespace Service

/-! ## Lines -/

/-- A member of the message in the line of an event. -/
def told (event : Json) (key : String) : Option Json :=
  (event.field? "event").bind (Json.field? key)

/-- A member of the result in the line of a response. -/
def answered (response : Json) (key : String) : Option Json :=
  (response.field? "result").bind (Json.field? key)

theorem line_event (m : Message) :
    told (Line.event m).toJson "type" = some (.str m.kind.name) ∧
      told (Line.event m).toJson "data" = some m.data.toJson.normal ∧
      told (Line.event m).toJson "contentType" = some (.str m.contentType) := by
  have hmessage : (Line.event m).toJson.field? "event" = some m.toJson.normal := by
    rw [Line.toJson, Json.field?_normal]
    rfl
  unfold told
  rw [hmessage, Message.toJson]
  simp only [Option.bind_some, Json.field?_normal]
  exact ⟨rfl, rfl, rfl⟩

/-- The members of an outcome are those of the response, in normal form. -/
theorem line_result (id : Json) (o : Outcome) (key : String) :
    answered (Line.response (.ofResult id (.ok o))).toJson key = o.toJson.normal.field? key := by
  have hresult : (Line.response (.ofResult id (.ok o))).toJson.field? "result" =
      some o.toJson.normal := by
    rw [Line.toJson, Response.ofResult, Response.toJson_ok, Json.field?_normal]
    rfl
  rw [answered, hresult]
  rfl

/-! ## Agreement -/

/-- The line of the last event and the line of the response tell the same, where texts are read by
the given reader. -/
structure Agreement (parse : String → Option Json) (event response : Json) : Prop where
  outcome : ∃ word ∈ ["completed", "failed", "compile_failed", "interrupted"],
    answered response "outcome" = some (.str word)
  completed : answered response "outcome" = some (.str "completed") →
    told event "type" = some (.str "end") ∧ ∃ data value,
      told event "data" = some (.str data) ∧ answered response "value" = some value ∧
        parse data = some value
  failed : answered response "outcome" = some (.str "failed") →
    told event "type" = some (.str "error") ∧
      told event "contentType" = some (.str "text/json") ∧ ∃ data members,
        told event "data" = some (.str data) ∧
          answered response "error" = some (.obj members) ∧ parse data = some (.obj members) ∧
          members.map Prod.fst = ["info", "name", "traceback", "what", "where", "why"]
  compileFailed : answered response "outcome" = some (.str "compile_failed") →
    told event "type" = some (.str "error") ∧
      told event "contentType" = some (.str "text/plain") ∧ ∃ e : CompileError,
        told event "data" = some (.str e.render) ∧
          answered response "error" = some e.toJson.normal
  interrupted : answered response "outcome" = some (.str "interrupted") →
    told event "type" = some (.str "interrupt")

/-- The members of the result, without that of the kind of the outcome. -/
theorem outcome_field (o : Outcome) :
    o.toJson.normal.field? "outcome" = some (.str o.kind) ∧
      (∀ v, o = .completed v → o.toJson.normal.field? "value" = some v.toJson) ∧
      (∀ e, o = .failed e → o.toJson.normal.field? "error" = some e.toJson.normal) ∧
      ∀ e, o = .compileFailed e → o.toJson.normal.field? "error" = some e.toJson.normal := by
  unfold Outcome.toJson
  simp only [Json.field?_normal]
  refine ⟨?_, ?_, ?_, ?_⟩
  · cases o <;> rfl
  · rintro v rfl
    exact congrArg some v.normal_toJson
  · rintro e rfl
    rfl
  · rintro e rfl
    rfl

/-- The last message of a run beside its result. -/
theorem closing_agreement {m : Message} {o : Outcome} {state : ExecutionState}
    (h : Closing m (.ok o) state) (id : Json) {parse : String → Option Json}
    (hparse : ∀ j, o.document? = some j → j.IsProper → parse j.print = some j.normal) :
    Agreement parse (Line.event m).toJson (Line.response (.ofResult id (.ok o))).toJson := by
  obtain ⟨htype, hdata, hcontent⟩ := line_event m
  obtain ⟨hkind, hvalue, hfailed, hcompile⟩ := outcome_field o
  have hread (j : Json) (hj : o.document? = some j) : parse j.print = some j.normal :=
    hparse j hj (Outcome.document_isProper hj)
  have hword := line_result id o "outcome"
  have herror := line_result id o "error"
  rw [hkind] at hword
  -- The word for the outcome leaves one of the four cases.
  have other {word : String} {P : Prop} (hne : o.kind ≠ word)
      (h : answered (Line.response (.ofResult id (.ok o))).toJson "outcome" = some (.str word)) :
      P := by
    rw [hword] at h
    exact absurd (Json.str.inj (Option.some.inj h)) hne
  refine ⟨⟨_, o.kind_known, hword⟩, ?_, ?_, ?_, ?_⟩
  · cases h with
    | completed v =>
      refine fun _ => ⟨htype, _, v.toJson, hdata, ?_, ?_⟩
      · rw [line_result, hvalue v rfl]
      · rw [hread _ rfl, v.normal_toJson]
    | _ => exact other (by simp [Outcome.kind])
  · cases h with
    | failed e =>
      have htext := hread _ rfl
      rw [hfailed e rfl, e.normal_toJson] at herror
      rw [e.normal_toJson] at htext
      exact fun _ => ⟨htype, hcontent, _, _, hdata, herror, htext, rfl⟩
    | _ => exact other (by simp [Outcome.kind])
  · cases h with
    | compileFailed e =>
      rw [hcompile e rfl] at herror
      exact fun _ => ⟨htype, hcontent, e, hdata, herror⟩
    | _ => exact other (by simp [Outcome.kind])
  · cases h with
    | interrupted => exact fun _ => htype
    | _ => exact other (by simp [Outcome.kind])

end Service

open Service in
/-- Of any connection the runs that were accepted are over, with the responses to their requests, or
the last one is under way. For each run that is over with an outcome the response and the last event
of the run tell the same. -/
theorem responses_agree (setup : Setup) (registry : Registry) (name : String)
    (os : List Occurrence) (pauses : Nat) :
    let first := opened (.idle setup registry) name
    let last := first.wholly os pauses
    ∃ (runs : List Ran) (now : Option Admission) (ms : List Message),
      first.admissions os = runs.map Ran.toAdmission ++ now.toList ∧
      now.map Admission.id = last.2.running ∧
      events last.1 = runs.flatMap Ran.messages ++ ms ∧
      ∀ x ∈ runs, x.IsRun ∧ .response x.response ∈ last.1 ∧
        ∀ o, x.result = .ok o → ∀ parse : String → Option Json,
          (∀ j, o.document? = some j → j.IsProper → parse j.print = some j.normal) →
          ∃ m, x.messages.getLast? = some m ∧ m.kind.isTerminal = true ∧
            Agreement parse (Line.event m).toJson (Line.response x.response).toJson := by
  intro first last
  obtain ⟨hopened, hsettled⟩ := opened_chronicle setup registry name
  obtain ⟨⟨runs, now, ms, haccount, hs⟩, -⟩ := wholly_chronicle hopened hsettled os pauses
  simp only [List.nil_append] at haccount
  refine ⟨runs, now, ms, haccount.admitted, hs.running.symm, haccount.events, fun x hx => ?_⟩
  have hrun := haccount.genuine x hx
  obtain ⟨l₁, l₂, hruns⟩ := List.append_of_mem hx
  obtain ⟨o₁, o₂, hout, -⟩ := haccount.answered l₁ x l₂ hruns
  have hmem : .response x.response ∈ last.1 := by
    rw [hout]
    exact List.mem_append_right _ List.mem_cons_self
  refine ⟨hrun, hmem, fun o ho parse hparse => ?_⟩
  have hover : x.result ≠ .error .exhausted := by
    rw [ho]
    nofun
  obtain ⟨mid, m, state, hmessages, -, hm⟩ := hrun.closes hover
  rw [ho] at hm
  refine ⟨m, by rw [hmessages, List.getLast?_concat], hm.isTerminal, ?_⟩
  rw [Ran.response, ho]
  exact closing_agreement hm x.id hparse

namespace Agreeing

open Service Answering

/-- The run waits for a line, and gets one. -/
def occurrences : List Occurrence :=
  [.line run, .line "\x7b\"id\":2,\"command\":\"input\",\"params\":\x7b\"text\":\"a\"\x7d\x7d"]

/-- The document of the line that was entered. -/
def isEntered : Json → Bool
  | .str text => text == "a"
  | _ => false

/-- The line is an event, or a response other than to a run, or to one that has returned the line
that was entered. -/
def returnsLine : Line → Bool
  | .event _ => true
  | .response ⟨_, .error _⟩ => false
  | .response ⟨_, .ok result⟩ =>
    (result.field? "outcome").isNone || (result.field? "value").any isEntered

/-- The text of the value is read back. -/
theorem parse_entered : Json.parse (Json.str "a").print = some (.str "a") := rfl

/-- Such a response is one to a run that has returned the text. -/
theorem document_of_returned {o : Outcome} {id j : Json}
    (h : returnsLine (.response (.ofResult id (.ok o))) = true) (hj : o.document? = some j) :
    j = .str "a" := by
  cases o with
  | completed v =>
    obtain rfl := Option.some.inj hj
    have hentered : isEntered v.toJson = true := h
    cases hv : v.toJson with
    | str text =>
      rw [hv] at hentered
      rw [beq_iff_eq.mp hentered]
    | _ =>
      rw [hv] at hentered
      cases hentered
  | failed e => cases h
  | compileFailed e => cases hj
  | interrupted => cases hj

theorem responses_agree_input : ∃ x : Ran, x.IsRun ∧ ∃ m, x.messages.getLast? = some m ∧
    Agreement Json.parse (Line.event m).toJson (Line.response x.response).toJson := by
  have hcount : (first.admissions occurrences).length = 1 := by decide +kernel
  have hreturned : (first.wholly occurrences 0).1.all returnsLine = true := by decide +kernel
  have hover : (first.wholly occurrences 0).2.running.isNone = true := by decide +kernel
  have hfirst : first = opened (.idle RunClosing.session.setup .standard) "s" := rfl
  rw [hfirst] at hcount hreturned hover
  obtain ⟨runs, now, ms, hadmitted, hrunning, -, hruns⟩ :=
    responses_agree RunClosing.session.setup .standard "s" occurrences 0
  rw [Option.isNone_iff_eq_none.mp hover, Option.map_eq_none_iff] at hrunning
  subst hrunning
  rw [hadmitted, Option.toList_none, List.append_nil, List.length_map,
    List.length_eq_one_iff] at hcount
  obtain ⟨x, rfl⟩ := hcount
  obtain ⟨hrun, hmem, hagree⟩ := hruns x (List.mem_singleton.mpr rfl)
  have hresponse := List.all_eq_true.mp hreturned _ hmem
  unfold Ran.response at hresponse
  cases hr : x.result with
  | error f =>
    rw [hr] at hresponse
    cases hresponse
  | ok o =>
    rw [hr] at hresponse
    obtain ⟨m, hm, -, hagreement⟩ := hagree o hr Json.parse fun j hj _ => by
      rw [document_of_returned hresponse hj]
      exact parse_entered
    exact ⟨x, hrun, m, hm, hagreement⟩

end Agreeing
end Lispbox
