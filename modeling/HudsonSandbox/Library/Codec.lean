import Mathlib.Data.Option.Basic

/-!
# Codecs

A pair of partial maps between values and their external form. The law a reader relies on is
that whatever was written can be read back.
-/

namespace HudsonSandbox

structure Codec (α β : Type*) where
  encode : α → Option β
  decode : β → Option α

/-- What is written is read back as the same value. -/
def Codec.RoundTrips {α β : Type*} (codec : Codec α β) : Prop :=
  ∀ value form, codec.encode value = some form → codec.decode form = some value

/-- This value is read back from what it is written as. -/
def Codec.Keeps {α β : Type*} (codec : Codec α β) (value : α) : Prop :=
  ∀ form, codec.encode value = some form → codec.decode form = some value

theorem Codec.RoundTrips.keeps {α β : Type*} {codec : Codec α β} (roundTrips : codec.RoundTrips)
    (value : α) : codec.Keeps value :=
  roundTrips value

/-- A codec of one value and its form, for instances on a fixed input. -/
def Codec.only {α β : Type*} [DecidableEq α] [DecidableEq β] (value : α) (form : β) :
    Codec α β where
  encode v := if v = value then some form else none
  decode f := if f = form then some value else none

@[simp] theorem Codec.only_encode {α β : Type*} [DecidableEq α] [DecidableEq β] (value : α)
    (form : β) : (Codec.only value form).encode value = some form := if_pos rfl

theorem Codec.only_roundTrips {α β : Type*} [DecidableEq α] [DecidableEq β] {value : α} {form : β} :
    (Codec.only value form).RoundTrips := by
  intro v f written
  simp only [Codec.only] at written ⊢
  split at written
  next same => rw [← Option.some.inj written, same, if_pos rfl]
  next => cases written

end HudsonSandbox
