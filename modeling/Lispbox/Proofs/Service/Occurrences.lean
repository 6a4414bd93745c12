import Lispbox.Proofs.Json.Members
import Lispbox.Proofs.Session.Closing
import Lispbox.Service.Basic

/-!
# What happens on a connection

A connection is told lines, and from time to time that a pause of a script is over
(`Service.Occurrence`). When the client has nothing more to say it is closed, and the runs that are
left are waited for (`Service.wholly`).

A line that is refused for what it says, or because a run is in flight, has one response and no
other effect at all (`refusals_atomic`). Refusals for other reasons belong to runs that are over.

* `refusals_atomic`: lines that are refused.
-/
namespace Lispbox

namespace Service

/-! ## Lines -/

/-- The message that a line is about. -/
def Line.event? : Line → Option Message
  | .event m => some m
  | .response _ => none

/-- The response that a line is. -/
def Line.response? : Line → Option Response
  | .event _ => none
  | .response r => some r

/-- The code of a response that is not ok, read from the JSON of its line. -/
def errorCode? (j : Json) : Option String :=
  match j.field? "ok" with
  | some (.bool false) => ((j.field? "error").bind (Json.field? "code")).bind Json.text?
  | _ => none

theorem errorCode?_event (m : Message) : errorCode? (Line.event m).toJson = none := by
  unfold errorCode? Line.toJson
  rw [Json.field?_normal]
  rfl

theorem errorCode?_ok (id result : Json) :
    errorCode? (Line.response ⟨id, .ok result⟩).toJson = none := by
  unfold errorCode? Line.toJson Response.toJson
  dsimp only
  rw [Json.field?_normal]
  rfl

theorem errorCode?_refused (id : Json) (e : Refusal) :
    errorCode? (Line.response ⟨id, .error e⟩).toJson = some e.code := by
  unfold errorCode? Line.toJson Response.toJson
  dsimp only
  rw [Json.field?_normal, Json.field?_normal]
  have hcode : (Json.obj [("code", .str e.code), ("message", .str e.message)]).normal.field?
      "code" = some (.str e.code) := by
    rw [Json.field?_normal]
    rfl
  exact congrArg (Option.bind · Json.text?) hcode

/-! ## Occurrences -/

/-- What a connection is told. -/
inductive Occurrence where
  | line (text : String)
  /-- A pause of the script is over. -/
  | elapse

/-- What is written in answer to an occurrence. -/
def meet [Supply] (c : Service) : Occurrence → List Line × Service
  | .line text => c.receive text
  | .elapse => c.elapse

/-- One occurrence after another. -/
def serve [Supply] (c : Service) : List Occurrence → List Line × Service
  | [] => ([], c)
  | o :: os => ((c.meet o).1 ++ ((c.meet o).2.serve os).1, ((c.meet o).2.serve os).2)

/-- A connection to its end: the client has nothing more to say, and then some pauses are over. -/
def wholly [Supply] (c : Service) (os : List Occurrence) (pauses : Nat) : List Line × Service :=
  let served := c.serve os
  let ended := served.2.close
  let late := ended.2.serve (List.replicate pauses .elapse)
  (served.1 ++ (ended.1 ++ late.1), late.2)

/-! ## Refusals -/

/-- The codes for refusals of a request; the other ones are for runs that have no outcome. -/
def requestCodes : List String :=
  ["parse_error", "invalid_params", "unsupported_command", "protocol_error", "busy"]

theorem code_fault (f : RunFault) : (Refusal.fault f).code ∉ requestCodes := by
  cases f with
  | unknownEvent u => exact (by decide : "unknown_event_kind" ∉ requestCodes)
  | exhausted => exact (by decide : "session_error" ∉ requestCodes)

theorem follow_eq [Supply] (c : Service) (p : Progress) :
    c.follow p = ((c.collect p).1 ++ (c.collect p).2.release.1, (c.collect p).2.release.2) := rfl

/-- What a session does is told without such a code. -/
theorem code_collect {c : Service} {p : Progress} {l : Line} (h : l ∈ (c.collect p).1)
    {code : String} (hl : errorCode? l.toJson = some code) : code ∉ requestCodes := by
  unfold collect at h
  dsimp only at h
  have event {ns : List Notice} (h : l ∈ ns.filterMap fun n => n.message?.map Line.event) :
      code ∉ requestCodes := by
    obtain ⟨n, -, hn⟩ := List.mem_filterMap.mp h
    obtain ⟨m, -, rfl⟩ := Option.map_eq_some_iff.mp hn
    rw [errorCode?_event] at hl
    cases hl
  split at h
  · exact event h
  · next r _ =>
    rcases List.mem_append.mp h with h | h
    · exact event h
    · obtain ⟨id, -, rfl⟩ := List.mem_map.mp h
      cases r with
      | ok o =>
        rw [Response.ofResult, errorCode?_ok] at hl
        cases hl
      | error f =>
        rw [Response.ofResult, errorCode?_refused] at hl
        cases hl
        exact code_fault f

theorem code_follow [Supply] {c : Service} {p : Progress} {l : Line} (h : l ∈ (c.follow p).1)
    {code : String} (hl : errorCode? l.toJson = some code) : code ∉ requestCodes := by
  rw [follow_eq] at h
  rcases List.mem_append.mp h with h | h
  · exact code_collect h hl
  · unfold release at h
    split at h
    · exact code_collect h hl
    · cases h

theorem code_reply [Supply] {c : Service} {id result : Json} {p : Progress} {l : Line}
    (h : l ∈ (c.reply id result p).1) {code : String} (hl : errorCode? l.toJson = some code) :
    code ∉ requestCodes := by
  rcases List.mem_cons.mp h with rfl | h
  · rw [errorCode?_ok] at hl
    cases hl
  · exact code_follow h hl

/-- A refused request has its response, and nothing else. -/
theorem eq_refuse {c : Service} {id : Json} {r : Refusal} {l : Line} (h : l ∈ (c.refuse id r).1) :
    c.refuse id r = ([l], c) := by
  rw [refuse, List.mem_singleton] at h
  rw [h, refuse]

theorem perform_refused [Supply] {c : Service} {id : Json} {i : Instruction} {l : Line}
    (h : l ∈ (c.perform id i).1) {code : String} (hl : errorCode? l.toJson = some code)
    (hcode : code ∈ requestCodes) : c.perform id i = ([l], c) := by
  unfold perform at h ⊢
  cases i with
  | setSource text file =>
    dsimp only at h ⊢
    cases hs : c.session.setSource text file with
    | ok s =>
      rw [hs] at h
      exact absurd hcode (code_reply h hl)
    | error b =>
      rw [hs] at h
      exact eq_refuse h
  | run request =>
    dsimp only at h ⊢
    cases hs : c.session.run request with
    | ok p =>
      rw [hs] at h
      exact absurd hcode (code_follow h hl)
    | error b =>
      rw [hs] at h
      exact eq_refuse h
  | _ => exact absurd hcode (code_reply h hl)

end Service

open Service in
/-- If a line has a response with one of the codes for refused requests, that is all that is written
in answer to it, and the connection with its session is as it was; so whatever comes next, all that
is written later is written without the line as well. -/
theorem refusals_atomic [Supply] (c : Service) (line : String) (l : Line)
    (hl : l ∈ (c.receive line).1) (code : String)
    (hrefused : errorCode? l.toJson = some code) (hcode : code ∈ requestCodes) :
    c.receive line = ([l], c) ∧
      ∀ os, c.serve (.line line :: os) = (l :: (c.serve os).1, (c.serve os).2) ∧
        ∀ pauses, c.wholly (.line line :: os) pauses =
          (l :: (c.wholly os pauses).1, (c.wholly os pauses).2) := by
  have hreceive : c.receive line = ([l], c) := by
    unfold receive at hl ⊢
    split at hl
    · cases hl
    · next hblank =>
      rw [if_neg hblank]
      cases he : Envelope.ofText? line with
      | none =>
        rw [he] at hl
        exact eq_refuse hl
      | some e =>
        rw [he] at hl
        dsimp only at hl ⊢
        cases hi : Instruction.ofEnvelope e with
        | error r =>
          rw [hi] at hl
          exact eq_refuse hl
        | ok i =>
          rw [hi] at hl
          exact perform_refused hl hrefused hcode
  have hserve (os : List Occurrence) :
      c.serve (.line line :: os) = (l :: (c.serve os).1, (c.serve os).2) := by
    rw [serve, meet, hreceive]
    rfl
  refine ⟨hreceive, fun os => ⟨hserve os, fun pauses => ?_⟩⟩
  unfold wholly
  rw [hserve]
  rfl

namespace Refusing

open Service

/-- A connection whose run waits for a line. -/
def connection : Service := ⟨RunClosing.waiting.session, "s", some .null, false⟩

/-- The request for another run. -/
def another : String := "\x7b\"id\":\"a\",\"command\":\"run\"\x7d"

def busy : Line := .response ⟨.str "a", .error (.busy .busy)⟩

/-- The request is read as that for another run. -/
def isAnother : Option Envelope → Bool
  | some ⟨.str id, command, .null⟩ => id == "a" && command == "run"
  | _ => false

theorem eq_of_isAnother {e : Option Envelope} (h : isAnother e = true) :
    e = some ⟨.str "a", "run", .null⟩ := by
  unfold isAnother at h
  split at h
  · rw [Bool.and_eq_true, beq_iff_eq, beq_iff_eq] at h
    rw [h.1, h.2]
  · cases h

/-- Without parameters a run is that of the current source. -/
theorem run_described : Instruction.ofEnvelope ⟨.str "a", "run", .null⟩ =
    .ok (.run ⟨none, none, .plain, [], []⟩) := by
  have hdescribed : RunRequest.ofJson? (.obj []) = some ⟨none, none, .plain, [], []⟩ := by
    simp [RunRequest.ofJson?, Json.fields?, Json.Fields.optional, Debugger.sortLines]
  simp [Instruction.ofEnvelope, runOf, hdescribed, Except.map]

theorem refusals_atomic_busy : connection.receive another = ([busy], connection) ∧
    ∀ os, connection.serve (.line another :: os) =
      (busy :: (connection.serve os).1, (connection.serve os).2) := by
  have hflight : connection.session.flight.isSome = true := by decide +kernel
  obtain ⟨f, hf⟩ := Option.isSome_iff_exists.mp hflight
  have hblank : (Text.trim another).isEmpty = false := by decide +kernel
  have henvelope : Envelope.ofText? another = some ⟨.str "a", "run", .null⟩ :=
    eq_of_isAnother (by decide +kernel)
  have hwritten : connection.receive another = ([busy], connection) := by
    unfold receive
    rw [hblank, henvelope]
    dsimp only
    rw [run_described]
    simp only [Bool.false_eq_true, if_false, perform, Session.run_busy hf]
    rfl
  have hmem : busy ∈ (connection.receive another).1 := by
    rw [hwritten]
    exact List.mem_singleton.mpr rfl
  obtain ⟨hreceive, hserve⟩ := refusals_atomic connection another busy hmem "busy"
    (errorCode?_refused _ _) (by decide)
  exact ⟨hreceive, fun os => (hserve os).1⟩

end Refusing
end Lispbox
