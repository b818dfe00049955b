import Core6502.Proofs.Checkpoint.Format
import Core6502.Proofs.Execution

/-!
# Going back to a checkpoint

Checkpoints with a full memory and machines are the same thing: `capture` and `machine?` undo each
other. So a machine that goes back to a checkpoint becomes the machine that was captured, whatever
happened to it since, and a checkpoint with any other memory leaves it as it is.
-/

namespace Core6502

namespace Checkpoint

variable {c : Checkpoint} {m n : Machine}

theorem size_ram_capture (m : Machine) : (capture m).ram.size = Memory.size := m.memory.size_bytes

theorem machine?_capture (m : Machine) : (capture m).machine? = some m := by
  rw [machine?, dif_pos (size_ram_capture m)]
  simp only [capture, Status.ofByte_toByte]

theorem capture_of_machine? (h : c.machine? = some m) : capture m = c := by
  unfold machine? at h
  split at h
  · obtain rfl := Option.some.inj h
    simp only [capture, Status.toByte_ofByte]
  · cases h

theorem exists_machine? (hsize : c.ram.size = Memory.size) : ∃ m, c.machine? = some m := by
  rw [machine?, dif_pos hsize]
  exact ⟨_, rfl⟩

theorem restore_of_machine? (h : c.machine? = some m) (n : Machine) :
    c.restore n = (.ok (), m) := by
  rw [restore, h]

theorem restore_capture (m n : Machine) : (capture m).restore n = (.ok (), m) :=
  restore_of_machine? (machine?_capture m) n

theorem restore_of_size_ne (hsize : c.ram.size ≠ Memory.size) (n : Machine) :
    c.restore n = (.error (.ramSize c.ram.size), n) := by
  rw [restore, machine?, dif_neg hsize]

theorem restore_fst_eq_ok_iff : (c.restore n).1 = .ok () ↔ c.ram.size = Memory.size := by
  constructor
  · intro h
    by_contra hsize
    rw [restore_of_size_ne hsize] at h
    cases h
  · intro hsize
    obtain ⟨m, hm⟩ := exists_machine? hsize
    rw [restore_of_machine? hm]

theorem decode_encode_capture (m : Machine) : decode (capture m).encode = .ok (capture m) := by
  have hsize : (capture m).ram.size < UInt64.size := by
    rw [size_ram_capture]
    decide
  have h := decode_encode_append hsize []
  rwa [List.append_nil] at h

/-- When going back to a checkpoint works, and that a machine that goes back to what was captured of
another one, also through the binary form, becomes that machine and runs on like it. -/
theorem restore_rewinds :
    (∀ (c : Checkpoint) (n : Machine),
      ((c.restore n).1 = .ok () ↔ c.ram.size = 65536) ∧
      (c.ram.size ≠ 65536 → c.restore n = (.error (.ramSize c.ram.size), n)) ∧
      (c.ram.size = 65536 → capture (c.restore n).2 = c ∧
        ∀ other : Machine, c.restore other = c.restore n)) ∧
    ∀ m n : Machine,
      (capture m).restore n = (.ok (), m) ∧
      (∃ c, decode (capture m).encode = .ok c ∧ c.restore n = (.ok (), m)) ∧
      ∀ c, c = capture m ∨ decode (capture m).encode = .ok c → ∀ k,
        (c.restore n).2.steps k = m.steps k ∧
          ((c.restore n).2.after k).step = (m.after k).step := by
  refine ⟨fun c n => ⟨restore_fst_eq_ok_iff, fun hsize => restore_of_size_ne hsize n,
    fun hsize => ?_⟩, fun m n => ⟨restore_capture m n, ⟨_, decode_encode_capture m,
    restore_capture m n⟩, fun c hc k => ?_⟩⟩
  · obtain ⟨m, hm⟩ := exists_machine? hsize
    rw [restore_of_machine? hm]
    exact ⟨capture_of_machine? hm, fun other => restore_of_machine? hm other⟩
  · have hcapture : c = capture m := by
      obtain rfl | hread := hc
      · rfl
      · rw [decode_encode_capture] at hread
        exact (Except.ok.inj hread).symm
    rw [hcapture, restore_capture]
    exact ⟨rfl, rfl⟩

/-- A machine that was switched on again goes back, and refuses a checkpoint of one byte. -/
theorem restore_rewinds_power_on :
    let m := ({} : Machine).load 0 [0xE8]
    let n := m.powerOn
    let short : Checkpoint := { capture m with ram := ⟨#[0xE8]⟩ }
    short.ram.size ≠ 65536 ∧ short.restore n = (.error (.ramSize 1), n) ∧
      (capture m).ram.size = 65536 ∧ capture ((capture m).restore n).2 = capture m ∧
      ∃ c, decode (capture m).encode = .ok c ∧ c.restore n = (.ok (), m) ∧
        (c.restore n).2.steps 3 = m.steps 3 := by
  intro m n short
  have hshort : short.ram.size ≠ 65536 := by
    show (1 : Nat) ≠ 65536
    decide
  have hfull : (capture m).ram.size = 65536 := size_ram_capture m
  obtain ⟨hrestore, hrewind⟩ := restore_rewinds
  obtain ⟨-, ⟨c, hread, hback⟩, hruns⟩ := hrewind m n
  exact ⟨hshort, (hrestore short n).2.1 hshort, hfull, ((hrestore (capture m) n).2.2 hfull).1, c,
    hread, hback, (hruns c (.inr hread) 3).1⟩

end Checkpoint

end Core6502
