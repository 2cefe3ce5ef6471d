import Mathlib.Data.List.Nodup
import Mathlib.Order.Basic

/-!
# Transactions that contend for a unique key

A table whose rows have a unique key, and sessions that insert into it. A key belongs to a scope,
whose own row a session locks; an inserted row is seen by others from its commit on, while the key is
taken from its insertion on. What a session read under an exclusive lock stays as it read it.
-/

namespace HudsonSandbox.Contention

/-- How a session holds the row of its scope. -/
inductive Hold where
  | none | share | exclusive
  deriving DecidableEq, Repr

/-- A transaction in flight, with the row it inserted and has not committed. -/
structure Session (σ ρ : Type*) where
  scope : σ
  hold : Hold
  pending : Option ρ

variable {σ κ ρ τ : Type*} {scope : κ → σ} {key : ρ → κ} {rows : List ρ}
  {sessions sessions' : τ → Option (Session σ ρ)} {i j : τ} {a b : Session σ ρ} {r : ρ}

structure Isolated (scope : κ → σ) (key : ρ → κ) (rows : List ρ)
    (sessions : τ → Option (Session σ ρ)) : Prop where
  unique : (rows.map key).Nodup
  excludes : ∀ i j a b, sessions i = some a → sessions j = some b → i ≠ j → a.scope = b.scope →
    a.hold = .exclusive → b.hold = .none
  within : ∀ i a r, sessions i = some a → a.pending = some r → scope (key r) = a.scope ∧ a.hold ≠ .none
  fresh : ∀ i a r, sessions i = some a → a.pending = some r → ∀ row ∈ rows, key row ≠ key r
  apart : ∀ i j a b r r', sessions i = some a → sessions j = some b → i ≠ j → a.pending = some r →
    b.pending = some r' → key r ≠ key r'

theorem Isolated.empty : Isolated scope key [] (fun _ : τ => (none : Option (Session σ ρ))) := by
  constructor
  · exact List.nodup_nil
  · intro i j a b found
    cases found
  · intro i a r found
    cases found
  · intro i a r found
    cases found
  · intro i j a b r r' found
    cases found

/-- Two rows of one key are one row. -/
theorem Isolated.same {row other : ρ} (isolated : Isolated scope key rows sessions) (here : row ∈ rows)
    (there : other ∈ rows) (keyed : key row = key other) : row = other :=
  List.inj_on_of_nodup_map isolated.unique here there keyed

/-- A session that ends holds nothing and leaves nothing. -/
theorem Isolated.release (isolated : Isolated scope key rows sessions) (others : ∀ j, j ≠ i → sessions' j = sessions j)
    (own : sessions' i = some a) (free : a.hold = .none) (clean : a.pending = none) :
    Isolated scope key rows sessions' := by
  -- a session of the new state that holds or inserted something is another one, as it was
  have other : ∀ j b, sessions' j = some b → b.hold ≠ .none ∨ b.pending ≠ none → sessions j = some b := by
    intro j b found busy
    by_cases mine : j = i
    · subst mine
      cases own.symm.trans found
      rcases busy with held | inserted
      · exact absurd free held
      · exact absurd clean inserted
    · exact (others j mine).symm.trans found
  have busy : ∀ {b : Session σ ρ} {r : ρ}, b.pending = some r → b.hold ≠ .none ∨ b.pending ≠ none := by
    intro b r inserted
    rw [inserted]
    exact .inr (Option.some_ne_none r)
  refine ⟨isolated.unique, ?_, ?_, ?_, ?_⟩
  · intro j k b c first second different same held
    have before := other j b first (.inl (by rw [held]; decide))
    by_contra holds
    exact holds (isolated.excludes j k b c before (other k c second (.inl holds)) different same held)
  · intro j b r found inserted
    exact isolated.within j b r (other j b found (busy inserted)) inserted
  · intro j b r found inserted
    exact isolated.fresh j b r (other j b found (busy inserted)) inserted
  · intro j k b c r r' first second different one two
    exact isolated.apart j k b c r r' (other j b first (busy one)) (other k c second (busy two)) different one two

/-- A session without a row locks its scope, or shares it, where the others let it. -/
theorem Isolated.lock (isolated : Isolated scope key rows sessions)
    (others : ∀ j, j ≠ i → sessions' j = sessions j) (own : sessions' i = some a) (clean : a.pending = none)
    (free : ∀ j b, j ≠ i → sessions j = some b → b.scope = a.scope →
      (a.hold = .exclusive → b.hold = .none) ∧ (b.hold = .exclusive → a.hold = .none)) :
    Isolated scope key rows sessions' := by
  have other : ∀ j b r, sessions' j = some b → b.pending = some r → sessions j = some b := by
    intro j b r found inserted
    by_cases mine : j = i
    · subst mine
      cases own.symm.trans found
      rw [clean] at inserted
      cases inserted
    · exact (others j mine).symm.trans found
  refine ⟨isolated.unique, ?_, ?_, ?_, ?_⟩
  · intro j k b c first second different same held
    by_cases mine : j = i
    · subst mine
      cases own.symm.trans first
      have before := (others k (Ne.symm different)).symm.trans second
      exact (free k c (Ne.symm different) before same.symm).1 held
    · have before := (others j mine).symm.trans first
      by_cases yours : k = i
      · subst yours
        cases own.symm.trans second
        exact (free j b mine before same).2 held
      · exact isolated.excludes j k b c before ((others k yours).symm.trans second) different same held
  · intro j b r found inserted
    exact isolated.within j b r (other j b r found inserted) inserted
  · intro j b r found inserted
    exact isolated.fresh j b r (other j b r found inserted) inserted
  · intro j k b c r r' first second different one two
    exact isolated.apart j k b c r r' (other j b r first one) (other k c r' second two) different one two

/-- A session that holds its scope inserts a row whose key nobody took. -/
theorem Isolated.insert (isolated : Isolated scope key rows sessions)
    (others : ∀ j, j ≠ i → sessions' j = sessions j) (before : sessions i = some b)
    (own : sessions' i = some { b with pending := some r }) (held : b.hold ≠ .none)
    (within : scope (key r) = b.scope) (fresh : ∀ row ∈ rows, key row ≠ key r)
    (free : ∀ j c r', j ≠ i → sessions j = some c → c.pending = some r' → key r' ≠ key r) :
    Isolated scope key rows sessions' := by
  refine ⟨isolated.unique, ?_, ?_, ?_, ?_⟩
  · intro j k c d first second different same exclusive
    by_cases mine : j = i
    · subst mine
      cases own.symm.trans first
      have other := (others k (Ne.symm different)).symm.trans second
      exact isolated.excludes j k b d before other different same exclusive
    · have first := (others j mine).symm.trans first
      by_cases yours : k = i
      · subst yours
        cases own.symm.trans second
        exact isolated.excludes j k c b first before different same exclusive
      · exact isolated.excludes j k c d first ((others k yours).symm.trans second) different same exclusive
  · intro j c r' found inserted
    by_cases mine : j = i
    · subst mine
      cases own.symm.trans found
      cases inserted
      exact ⟨within, held⟩
    · exact isolated.within j c r' ((others j mine).symm.trans found) inserted
  · intro j c r' found inserted
    by_cases mine : j = i
    · subst mine
      cases own.symm.trans found
      cases inserted
      exact fresh
    · exact isolated.fresh j c r' ((others j mine).symm.trans found) inserted
  · intro j k c d r' r'' first second different one two
    by_cases mine : j = i
    · subst mine
      cases own.symm.trans first
      cases one
      have other := (others k (Ne.symm different)).symm.trans second
      exact (free k d r'' (Ne.symm different) other two).symm
    · have first := (others j mine).symm.trans first
      by_cases yours : k = i
      · subst yours
        cases own.symm.trans second
        cases two
        exact free j c r' mine first one
      · exact isolated.apart j k c d r' r'' first ((others k yours).symm.trans second) different one two

/-- The row of a session joins the table when the session commits. -/
theorem Isolated.commit (isolated : Isolated scope key rows sessions)
    (others : ∀ j, j ≠ i → sessions' j = sessions j) (before : sessions i = some b) (inserted : b.pending = some r)
    (own : sessions' i = some a) (free : a.hold = .none) (clean : a.pending = none) :
    Isolated scope key (rows ++ [r]) sessions' := by
  have released := isolated.release others own free clean
  refine ⟨?_, released.excludes, released.within, ?_, released.apart⟩
  · rw [List.map_append]
    refine List.Nodup.append isolated.unique (List.nodup_singleton _) ?_
    intro k here there
    obtain ⟨row, member, rfl⟩ := List.mem_map.mp here
    exact isolated.fresh i b r before inserted row member (List.mem_singleton.mp there)
  · intro j c r' found pending row here
    rcases List.mem_append.mp here with here | there
    · exact released.fresh j c r' found pending row here
    · cases List.mem_singleton.mp there
      by_cases mine : j = i
      · subst mine
        cases own.symm.trans found
        rw [clean] at pending
        cases pending
      · have other := (others j mine).symm.trans found
        exact isolated.apart i j b c r r' before other (Ne.symm mine) inserted pending

/-- While a session holds its scope exclusively, nobody else commits a row in it. -/
theorem Isolated.outside (isolated : Isolated scope key rows sessions) (held : sessions i = some a)
    (exclusive : a.hold = .exclusive) (other : sessions j = some b) (different : j ≠ i)
    (inserted : b.pending = some r) : scope (key r) ≠ a.scope := by
  intro inside
  obtain ⟨within, holds⟩ := isolated.within j b r other inserted
  exact holds (isolated.excludes i j a b held other (Ne.symm different) (inside.symm.trans within) exclusive)

end HudsonSandbox.Contention
