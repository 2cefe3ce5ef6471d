import Mathlib.Init

/-!
# Pre- and postconditions of effectful code

Code over a state that can fail keeps whatever it wrote before it failed, so a contract names
two outcomes: what holds when a call returns a value and what holds when it fails.
-/

namespace HudsonSandbox.Effect
universe u
variable {ε σ α β : Type u} {pre pre' : σ → Prop} {mid : α → σ → Prop} {post post' : β → σ → Prop}
  {fail fail' : ε → σ → Prop} {call : EStateM ε σ β} {first : EStateM ε σ α}
  {rest : α → EStateM ε σ β} {value : β} {error : ε} {fact : Prop}

/-- Where a call that ended in this result leaves the state. -/
def Outcome (post : β → σ → Prop) (fail : ε → σ → Prop) : EStateM.Result ε σ β → Prop
  | .ok value next => post value next
  | .error error next => fail error next

/-- From every state that meets `pre`, the call returns into `post` or fails into `fail`. -/
def Triple (pre : σ → Prop) (call : EStateM ε σ β) (post : β → σ → Prop) (fail : ε → σ → Prop) :
    Prop :=
  ∀ s, pre s → Outcome post fail (call s)

namespace Triple

theorem pure (returns : ∀ s, pre s → post value s) : Triple pre (pure value) post fail := returns

theorem throw (fails : ∀ s, pre s → fail error s) :
    Triple pre (throw error : EStateM ε σ β) post fail := fails

theorem bind (head : Triple pre first mid fail) (tail : ∀ a, Triple (mid a) (rest a) post fail) :
    Triple pre (first >>= rest) post fail := by
  intro s start
  have after := head s start
  change Outcome post fail (EStateM.bind first rest s)
  unfold EStateM.bind
  cases result : first s with
  | ok a next => exact tail a next (by rw [result] at after; exact after)
  | error e next => rw [result] at after; exact after

/-- A step that answers nothing and is followed by the rest of the block. -/
theorem seq {step : EStateM ε σ PUnit} {between : σ → Prop} {after : EStateM ε σ β}
    (head : Triple pre step (fun _ => between) fail) (tail : Triple between after post fail) :
    Triple pre (do step; after) post fail :=
  bind head fun _ => tail

theorem weaken (triple : Triple pre call post fail) (stronger : ∀ s, pre' s → pre s)
    (returns : ∀ b s, post b s → post' b s) (fails : ∀ e s, fail e s → fail' e s) :
    Triple pre' call post' fail' := by
  intro s start
  have after := triple s (stronger s start)
  cases result : call s with
  | ok b next => rw [result] at after; exact returns b next after
  | error e next => rw [result] at after; exact fails e next after

theorem strengthen (triple : Triple pre call post fail) (stronger : ∀ s, pre' s → pre s) :
    Triple pre' call post fail :=
  triple.weaken stronger (fun _ _ h => h) fun _ _ h => h

theorem post_mono (triple : Triple pre call post fail) (returns : ∀ b s, post b s → post' b s) :
    Triple pre call post' fail :=
  triple.weaken (fun _ h => h) returns fun _ _ h => h

/-- A fact that does not mention the state is a hypothesis of the rest. -/
theorem assume (given : fact → Triple pre call post fail) :
    Triple (fun s => fact ∧ pre s) call post fail :=
  fun s start => given start.1 s start.2

theorem get {read : σ → σ → Prop} (holds : ∀ s, pre s → read s s) :
    Triple pre (get : EStateM ε σ σ) read fail := holds

theorem modify {change : σ → σ} {after : σ → Prop} (holds : ∀ s, pre s → after (change s)) :
    Triple pre (modify change : EStateM ε σ PUnit) (fun _ => after) fail := holds

end Triple

/-- Fail with `error` unless the condition holds. -/
def require (condition : Prop) [Decidable condition] (error : ε) : EStateM ε σ PUnit :=
  if condition then Pure.pure ⟨⟩ else MonadExcept.throw error

theorem Triple.require {condition : Prop} [Decidable condition] {error : ε}
    (fails : ∀ s, pre s → ¬condition → fail error s) :
    Triple pre (require condition error) (fun _ s => condition ∧ pre s) fail := by
  intro s start
  unfold Effect.require
  by_cases met : condition
  · rw [if_pos met]; exact ⟨met, start⟩
  · rw [if_neg met]; exact fails s start met

/-- Run a computation that needs no state. -/
def lift : Except ε β → EStateM ε σ β
  | .ok value => Pure.pure value
  | .error error => MonadExcept.throw error

theorem Triple.lift {result : Except ε β} (fails : ∀ s e, pre s → result = .error e → fail e s) :
    Triple pre (lift result) (fun value s => result = .ok value ∧ pre s) fail := by
  intro s start
  cases same : result with
  | ok value => exact ⟨rfl, start⟩
  | error e => exact fails s e start same

end HudsonSandbox.Effect
