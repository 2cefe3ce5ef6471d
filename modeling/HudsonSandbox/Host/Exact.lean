import HudsonSandbox.Host.Journal

/-!
# Calls from one known state

An invariant forgets where a call started. Where it matters that nothing was written, or exactly
what was, the call is followed from the state it starts in.
-/

namespace HudsonSandbox.Host
open Checked LiveOutput Supervisor Effect

section
variable {s : Host} {record next : Record} {disk : Disk}

/-- From this host the call changes nothing but its trust in the journal. -/
def Reads {α : Type} (s : Host) (call : HostM α) (answers : α → Prop) : Prop :=
  Triple (fun h => h = s) call (fun a h => h = s ∧ answers a) fun failure h =>
    (h = s ∨ h = s.poison) ∧ failure ≠ .crashed

namespace Reads
variable {α β : Type} {call : HostM α} {rest : α → HostM β} {answers answers' : α → Prop}
  {next : β → Prop} {disk : Disk} {status : Status}

theorem bind (head : Reads s call answers) (tail : ∀ a, answers a → Reads s (rest a) next) :
    Reads s (call >>= rest) next :=
  Triple.bind head fun a => by
    rintro _ ⟨rfl, known⟩
    exact tail a known _ rfl

theorem pure {value : α} (known : answers value) : Reads s (pure value) answers := by
  rintro _ rfl
  exact ⟨rfl, known⟩

theorem refuse : Reads s (refuse status) answers := by
  rintro _ rfl
  exact ⟨.inl rfl, by simp⟩

theorem get : Reads s get (fun read => read = s) := by
  rintro _ rfl
  exact ⟨rfl, rfl⟩

theorem check {result : Except Status α} : Reads s (check result) (fun a => result = .ok a) := by
  rintro _ rfl
  cases result with
  | error status => exact ⟨.inl rfl, by simp⟩
  | ok value => exact ⟨rfl, rfl⟩

theorem journal : Reads s (journal disk) (fun read => read = s ∧ s.poisoned = false) := by
  refine bind get fun read same => ?_
  subst same
  split
  next =>
    rintro _ rfl
    exact ⟨.inr rfl, by simp⟩
  next calm => exact pure ⟨rfl, by simpa using (not_or.mp calm).1⟩

theorem read : Reads s (read disk) (fun record => s.record = some record ∧ s.poisoned = false) := by
  refine bind journal fun read same => ?_
  obtain ⟨rfl, calm⟩ := same
  exact Triple.post_mono check fun record h found => ⟨found.1, okOr_ok.mp found.2, calm⟩

end Reads

/-- The save reaches the disk, whether or not the host learns of it. -/
def Disk.Durable (disk : Disk) : Prop := disk = .written ∨ disk = .uncertain ∨ disk = .crashed true

instance (disk : Disk) : Decidable disk.Durable := inferInstanceAs (Decidable (_ ∨ _))

theorem Disk.Durable.open (durable : disk.Durable) : disk ≠ .refused := by
  rintro rfl
  simp [Disk.Durable] at durable

/-- Nothing was written, told or asked for. -/
def Silent (s next : Host) : Prop := next.facts = s.facts ∧ next.lifecycle = s.lifecycle

theorem Reads.silent {α : Type} {call : HostM α} {answers : α → Prop} (reads : Reads s call answers) :
    Triple (fun h => h = s) call (fun a h => h = s ∧ answers a) fun _ h => Silent s h := by
  refine Triple.weaken reads (fun _ same => same) (fun _ _ met => met) fun _ h failed => ?_
  obtain rfl | rfl := failed.1
  · exact ⟨rfl, rfl⟩
  · exact ⟨rfl, rfl⟩

end
end HudsonSandbox.Host
