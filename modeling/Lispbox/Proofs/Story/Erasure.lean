import Lispbox.Proofs.Story.Basic

/-!
# Stories are about runs

Without its marks the story of a program is its dialogue (`Program.erase_story`): the same questions
are asked in the same states, and each answer leads to the same result. So the marks can be read as
remarks on a run.

* `Narrator.erase_bind`: the marks of one part after another.
* `erase_tell`: one equation for each function of the evaluator, by the recursion of that function.
* `Story.exchanges_happenings`: what is said in the story of a conversation is what is said in it.
-/
namespace Lispbox

namespace Story

variable {ρ τ σ : Type}

theorem erase_bind (s : Story ρ) (f : ρ → Machine → Story τ) :
    (s.bind f).erase = s.erase.bind fun r m => (f r m).erase := by
  induction s with
  | done r m => rfl
  | abort a m => rfl
  | ask m q resume ih => exact congrArg (Dialogue.ask m q) (funext ih)
  | mark k rest ih => exact ih

@[simp] theorem erase_ofDialogue (d : Dialogue ρ) : (ofDialogue d).erase = d := by
  induction d with
  | done r m => rfl
  | abort a m => rfl
  | ask m q resume ih => exact congrArg (Dialogue.ask m q) (funext ih)

theorem ofDialogue_bind (d : Dialogue ρ) (f : ρ → Machine → Dialogue τ) :
    ofDialogue (d.bind f) = (ofDialogue d).bind fun r m => ofDialogue (f r m) := by
  induction d with
  | done r m => rfl
  | abort a m => rfl
  | ask m q resume ih => exact congrArg (Story.ask m q) (funext ih)

theorem exchanges_happenings (h : Host σ) (s : Story ρ) (t : σ) :
    (s.happenings h t).filterMap Happening.exchange? = s.erase.exchanges h t := by
  induction s generalizing t with
  | done r m => rfl
  | abort a m => rfl
  | ask m q resume ih => exact congrArg (List.cons _) (ih _ _)
  | mark k rest ih => exact ih t

end Story

namespace Narrator

variable {α β : Type}

@[simp] theorem erase_pure (a : α) : (pure a : Narrator α).erase = pure a := rfl

@[simp] theorem erase_of (s : Script α) : (of s).erase = s :=
  funext fun m => Story.erase_ofDialogue (s m)

/-- Nothing is left of a mark. -/
@[simp] theorem erase_mark (k : Mark) : (mark k).erase = pure () := rfl

theorem erase_marked (k : Mark) (f : Unit → Narrator α) : (mark k >>= f).erase = (f ()).erase := rfl

@[simp] theorem erase_outcome (t : Narrator α) : (outcome t).erase = Script.outcome t.erase :=
  funext fun m => Story.erase_bind (t m) _

@[simp] theorem erase_bind (t : Narrator α) (f : α → Narrator β) :
    (t >>= f).erase = t.erase >>= fun a => (f a).erase := by
  funext m
  refine (Story.erase_bind (t m) _).trans (congrArg (Dialogue.bind _) ?_)
  funext r m
  cases r <;> rfl

/-- One part after another, each with what it tells about. -/
theorem erase_then {t : Narrator α} {s : Script α} {f : α → Narrator β} {g : α → Script β}
    (ht : t.erase = s) (hf : ∀ a, (f a).erase = g a) : (t >>= f).erase = s >>= g := by
  rw [erase_bind, ht, funext hf]

/-- Parts without marks. -/
theorem of_bind (s : Script α) (f : α → Script β) :
    of (s >>= f) = of s >>= fun a => of (f a) := by
  funext m
  refine (Story.ofDialogue_bind (s m) _).trans (congrArg (Story.bind _) ?_)
  funext r m
  cases r <;> rfl

end Narrator

open Narrator (erase_then erase_of erase_marked erase_outcome)

/-- The evaluator that is told about. -/
def Teller.erase (te : Teller) : Evaluator := fun n => (te n).erase

section

variable {env : Environment} {te : Teller} {α : Type}

theorem Teller.erase_eq (te : Teller) (n : Node) : (te n).erase = te.erase n := rfl

attribute [local simp] Teller.erase_eq Script.bind_pure

theorem erase_tellFrames (t : Narrator α) : (tellFrames t).erase = withFrames t.erase := by
  refine erase_then (erase_outcome t) fun r => ?_
  cases r with
  | ok a => exact erase_of _
  | error e =>
    cases e with
    | raise e =>
      dsimp only
      split
      · exact erase_then (erase_of _) fun m => erase_of _
      · exact erase_of _
    | leave v => exact erase_of _
    | stop sig => exact erase_of _

@[simp] theorem erase_tellBlock (last : Value) (ns : Block) :
    (tellBlock te last ns).erase = runBlock te.erase last ns := by
  induction ns generalizing last with
  | nil => rfl
  | cons n ns ih => simp [tellBlock, runBlock, ih]

@[simp] theorem erase_tellAll (ns : List Node) : (tellAll te ns).erase = evalAll te.erase ns := by
  induction ns with
  | nil => rfl
  | cons n ns ih => simp [tellAll, evalAll, ih]

@[simp] theorem erase_tellUntil (stop : Bool) (last : Value) (ns : List Node) :
    (tellUntil te stop last ns).erase = evalUntil te.erase stop last ns := by
  induction ns generalizing last with
  | nil => rfl
  | cons n ns ih =>
    refine erase_then rfl fun v => ?_
    split
    · rfl
    · exact ih v

@[simp] theorem erase_tellEnter (f : Frame) (body : Narrator Value) :
    (tellEnter env f body).erase = enter env f body.erase := by
  refine erase_then (erase_of _) fun m => ?_
  split
  · exact erase_of _
  · simp

@[simp] theorem erase_tellBody (body : Block) :
    (tellBody te body).erase = untilLeft (runBlock te.erase .nil body) := by
  refine erase_then ((erase_outcome _).trans (congrArg _ (erase_tellBlock _ _))) fun r => ?_
  cases r with
  | ok a => exact erase_of _
  | error e =>
    cases e with
    | leave v => rfl
    | raise e => exact erase_of _
    | stop sig => exact erase_of _

@[simp] theorem erase_tellCall (callee : Value) (args : List Value) :
    (tellCall env te callee args).erase = callValue env te.erase callee args := by
  cases callee with
  | function d home scope =>
    change Narrator.erase (tellFunction env te d scope args) =
      callFunction env te.erase d scope args
    unfold tellFunction callFunction
    split
    · exact erase_of _
    · rw [erase_tellEnter, erase_tellBody]
  | _ => exact erase_of _

@[simp] theorem erase_tellSettle (fuel : Nat) (v : Value) :
    (tellSettle env te fuel v).erase = settle env te.erase fuel v := by
  induction fuel generalizing v with
  | zero => cases v <;> simp [tellSettle, settle]
  | succ fuel ih => cases v <;> simp [tellSettle, settle, ih]

@[simp] theorem erase_tellModule (name : String) (p : Program) :
    (tellModule env te name p).erase = runModule env te.erase name p := by
  refine erase_then (erase_of _) fun m => erase_then (erase_of _) fun _ => ?_
  refine erase_then ((erase_tellEnter _ _).trans (by rw [erase_tellBody])) fun _ => ?_
  refine erase_then (erase_of _) fun m' => ?_
  cases m'.namespaces[m.namespaces.length]? <;> rfl

@[simp] theorem erase_tellLoad (name : String) :
    (tellLoad env te name).erase = load env te.erase name := by
  refine erase_then (erase_of _) fun m => ?_
  cases m.loaded.get? name with
  | some v => rfl
  | none =>
    cases env.registry.get? name with
    | none => exact erase_of _
    | some r =>
      obtain ⟨_, source⟩ := r
      cases source with
      | native members => exact erase_of _
      | script p => exact erase_then (erase_tellModule name p) fun _ => erase_of _

@[simp] theorem erase_tellLoop (line : Nat) (condition : Node) (body : Block) (fuel : Nat)
    (isFirst : Bool) : (tellLoop te line condition body fuel isFirst).erase =
      runLoop te.erase line condition body fuel isFirst := by
  induction fuel generalizing isFirst with
  | zero => exact erase_of _
  | succ fuel ih =>
    have round : (te condition >>= fun c => if c.isTrue then do
          let _ ← tellBlock te .nil body
          tellLoop te line condition body fuel false
        else return .nil).erase = te.erase condition >>= fun c => if c.isTrue then do
          let _ ← runBlock te.erase .nil body
          runLoop te.erase line condition body fuel false
        else return .nil := by
      refine erase_then rfl fun c => ?_
      split
      · exact erase_then (erase_tellBlock _ _) fun _ => ih false
      · rfl
    cases isFirst with
    | true => exact round
    | false => exact (erase_marked _ _).trans (erase_then (erase_of _) fun _ => round)

@[simp] theorem erase_tellAttempt (body : Block) (handlers : List Handler) :
    (tellAttempt te body handlers).erase = runAttempt te.erase body handlers := by
  refine erase_then ((erase_outcome _).trans (congrArg _ (erase_tellBlock _ _))) fun r => ?_
  cases r with
  | ok a => exact erase_of _
  | error e =>
    cases e with
    | leave v => exact erase_of _
    | stop sig => exact erase_of _
    | raise e =>
      dsimp only
      cases handlers.find? fun h => h.catches e.name with
      | none => exact erase_of _
      | some h =>
        dsimp only
        cases h.binding with
        | none => exact erase_tellBlock _ _
        | some name => exact erase_then (erase_of _) fun _ => erase_tellBlock _ _

@[simp] theorem erase_tellMessage (message : Option Node) :
    (tellMessage te message).erase = evalMessage te.erase message := by
  cases message <;> simp [tellMessage, evalMessage]

theorem erase_tellNode (rounds : Nat) (n : Node) :
    (tellNode env te rounds n).erase = evalNode env te.erase rounds n := by
  cases n with
  | leave line value => cases value <;> simp [tellNode, evalNode]
  | _ => simp [tellNode, evalNode]

theorem erase_tell (env : Environment) (fuel : Nat) :
    Teller.erase (tell env fuel) = eval env fuel := by
  induction fuel with
  | zero => exact funext fun n => erase_of _
  | succ fuel ih =>
    funext n
    rw [eval_succ, ← ih]
    refine (erase_tellFrames _).trans (congrArg withFrames ?_)
    exact erase_then (erase_of _) fun _ => erase_tellNode fuel n

end

/-- The story of a program is about its dialogue. -/
theorem Program.erase_story (env : Environment) (fuel : Nat) (p : Program) :
    (p.story env fuel).erase = p.dialogue env fuel := by
  refine congrFun (?_ : Narrator.erase _ = _) (Machine.start p)
  rw [erase_tellEnter, runProgram, ← erase_tell]
  simp

end Lispbox
