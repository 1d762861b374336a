import DataReceiveRelay.LaunchCounter
import DataReceiveRelay.ModbusFunctions

/-!
# A read that is interrupted

The poll thread has the lowest priority of all threads. The loop that copies
registers into a reply loads each register twice, once for each byte, and the
receive thread and the timeout thread can run between any two loads. A register
of a node that gets neither a frame nor a visit meanwhile is still read right. A
counter that is counted up meanwhile can come out as a number it never had.
-/

namespace DataReceiveRelay.InterruptedReads

open Words Runs Blocks Registers Radio DataFrame Receive Overtime Nodes LaunchCounter
open ModbusCrc ModbusFunctions

variable {F : Type} [CFloat F]

section Loop

/-- The reading loop of `eMBRegHoldingCB`: for each register, what happens ahead of the load of its high byte and
between its two loads. -/
def readInterrupted (s : State F) : List (List Event × List Event) → Nat → Nat → (Nat → U8) → (Nat → U8) × State F
  | [], _, _, buffer => (buffer, s)
  | (ahead, between) :: rest, iRegIndex, p, buffer =>
    let s₁ := run step s ahead
    let s₂ := run step s₁ between
    readInterrupted s₂ rest (iRegIndex + 1) (p + 2)
      (Function.update (Function.update buffer p (highByte (s₁.regs iRegIndex))) (p + 1)
        (lowByte (s₂.regs iRegIndex)))

/-- The bytes that the loop loads. -/
def loaded (s : State F) : List (List Event × List Event) → Nat → Bytes
  | [], _ => []
  | (ahead, between) :: rest, iRegIndex =>
    highByte ((run step s ahead).regs iRegIndex) :: lowByte ((run step s (ahead ++ between)).regs iRegIndex) ::
      loaded (run step s (ahead ++ between)) rest (iRegIndex + 1)

theorem readInterrupted_eq (s : State F) (schedule : List (List Event × List Event)) (iRegIndex p : Nat)
    (buffer : Nat → U8) :
    (readInterrupted s schedule iRegIndex p buffer).1 = place buffer p (loaded s schedule iRegIndex) := by
  induction schedule generalizing s iRegIndex p buffer with
  | nil => rw [readInterrupted, loaded, place_nil]
  | cons turn schedule ih =>
    obtain ⟨ahead, between⟩ := turn
    rw [readInterrupted, ih, loaded, place_cons, place_cons, run_append]

/-- Without an interruption this is the loop of the callback. -/
theorem readInterrupted_quiet (s : State F) (count iRegIndex p : Nat) (buffer : Nat → U8) :
    (readInterrupted s (List.replicate count ([], [])) iRegIndex p buffer).1 =
      readRegisters s.regs count iRegIndex p buffer := by
  induction count generalizing iRegIndex p buffer with
  | zero => rfl
  | succ count ih => rw [List.replicate_succ, readInterrupted, readRegisters, run_nil, run_nil, ih]

/-- All that happens during the loop. -/
def during (schedule : List (List Event × List Event)) : List Event := schedule.flatMap fun turn => turn.1 ++ turn.2

end Loop

section Untouched

/-- A register is not touched by events that are for other nodes. -/
theorem run_untouched (s : State F) (events : List Event) (a : Nat)
    (h : ∀ e ∈ events, ∀ n, node s.regs e = some n → a ∉ nodeRegisters n) : (run step s events).regs a = s.regs a := by
  induction events generalizing s with
  | nil => rfl
  | cons e events ih =>
    rw [run_cons, ih, step_other s e a (h e List.mem_cons_self)]
    intro e' he' n hnode
    rw [node_congr _ _ (step_ids s e)] at hnode
    exact h e' (List.mem_cons_of_mem e he') n hnode

theorem run_sameIds (s : State F) (events : List Event) : SameIds (run step s events).regs s.regs := by
  have hstep (t : State F) (e : Event) (ht : SameIds t.regs s.regs) : SameIds (step t e).regs s.regs :=
    (step_ids t e).trans ht
  exact invariant hstep s events fun _ _ _ => rfl

theorem loaded_untouched (s : State F) (schedule : List (List Event × List Event)) (iRegIndex j : Nat)
    (hj : j < schedule.length)
    (h : ∀ e ∈ during schedule, ∀ n, node s.regs e = some n → iRegIndex + j ∉ nodeRegisters n) :
    (loaded s schedule iRegIndex)[2 * j]? = some (highByte (s.regs (iRegIndex + j))) ∧
      (loaded s schedule iRegIndex)[2 * j + 1]? = some (lowByte (s.regs (iRegIndex + j))) := by
  induction schedule generalizing s iRegIndex j with
  | nil => cases hj
  | cons turn schedule ih =>
    obtain ⟨ahead, between⟩ := turn
    have hfirst : ∀ e ∈ ahead ++ between, ∀ n, node s.regs e = some n → iRegIndex + j ∉ nodeRegisters n :=
      fun e he => h e (List.mem_append_left _ he)
    rw [loaded]
    cases j with
    | zero =>
      have hahead := run_untouched s ahead iRegIndex fun e he => hfirst e (List.mem_append_left _ he)
      have hboth := run_untouched s (ahead ++ between) iRegIndex hfirst
      simp [hahead, hboth]
    | succ j =>
      rw [show iRegIndex + (j + 1) = iRegIndex + 1 + j by omega] at h hfirst ⊢
      have hids := run_sameIds s (ahead ++ between)
      have hrest := ih (run step s (ahead ++ between)) (iRegIndex + 1) j (by simpa using hj) (by
        intro e he n hnode
        rw [node_congr _ _ hids] at hnode
        exact h e (List.mem_append_right _ he) n hnode)
      rw [run_untouched s (ahead ++ between) (iRegIndex + 1 + j) hfirst] at hrest
      exact hrest

/-- However often the loop is interrupted, a register of a node that gets no frame and no visit meanwhile, and a register
of no node, is read as it was before. -/
theorem untouched_read_right (s : State F) (schedule : List (List Event × List Event)) (iRegIndex p j : Nat)
    (buffer : Nat → U8) (hj : j < schedule.length)
    (h : ∀ e ∈ during schedule, ∀ n, node s.regs e = some n → iRegIndex + j ∉ nodeRegisters n) :
    let reply := (readInterrupted s schedule iRegIndex p buffer).1
    joinBytes (reply (p + 2 * j)) (reply (p + 2 * j + 1)) = s.regs (iRegIndex + j) := by
  intro reply
  obtain ⟨hhigh, hlow⟩ := loaded_untouched s schedule iRegIndex j hj h
  have hreply : reply = place buffer p (loaded s schedule iRegIndex) := readInterrupted_eq s schedule iRegIndex p buffer
  rw [hreply, place, place, if_pos (by omega), if_pos (by omega), Nat.add_sub_cancel_left, hhigh,
    show p + 2 * j + 1 - p = 2 * j + 1 by omega, hlow]
  exact joinBytes_split _

/-- A frame of device 1. -/
def frameOfOne : Event := .frame 7#32 ⟨60#8, 30#8⟩ fun i => frameOne.getD i 0#8

/-- Device 1 is node 0, and node 1 has a temperature. -/
def warmNodeOne : State Float := ⟨Function.update registeredOne 0x009 253#16, blankNode⟩

/-- The temperature of node 1 is read while a frame of node 0 comes in. -/
theorem untouched_read_other_node :
    let reply := (readInterrupted warmNodeOne [([], [frameOfOne])] 0x009 2 fun _ => 0#8).1
    joinBytes (reply 2) (reply 3) = 253#16 := by
  have hnode : node warmNodeOne.regs frameOfOne = some 0 := by
    rw [frameOfOne, node_frame]
    exact ⟨by decide, by decide, by unfold IdMatches; decide, fun j hj => absurd hj (Nat.not_lt_zero j)⟩
  refine untouched_read_right warmNodeOne [([], [frameOfOne])] 0x009 2 0 (fun _ => 0#8) (by decide) ?_
  intro e he n hn
  obtain rfl : e = frameOfOne := by simpa [during] using he
  obtain rfl : 0 = n := Option.some.inj (hnode.symm.trans hn)
  rw [mem_nodeRegisters]
  decide

end Untouched

section Counter

/-- The number that a host makes of two registers in a reply, low word first. -/
def shown (reply : Nat → U8) (p : Nat) : U32 :=
  join (joinBytes (reply p) (reply (p + 1))) (joinBytes (reply (p + 2)) (reply (p + 3)))

theorem highByte_toNat (v : U16) : (highByte v).toNat = v.toNat / 2 ^ 8 := by
  have hlt := v.isLt
  rw [highByte, BitVec.toNat_setWidth, BitVec.toNat_ushiftRight, Nat.shiftRight_eq_div_pow]
  omega

theorem joinBytes_toNat (hi lo : U8) : (joinBytes hi lo).toNat = hi.toNat * 2 ^ 8 + lo.toNat := by
  rw [joinBytes_eq_append, BitVec.toNat_append, ← Nat.shiftLeft_add_eq_or_of_lt lo.isLt, Nat.shiftLeft_eq]

theorem lowByte_toNat (v : U16) : (lowByte v).toNat = v.toNat % 2 ^ 8 := by
  have hsplit := joinBytes_toNat (highByte v) (lowByte v)
  have hlt := (lowByte v).isLt
  rw [joinBytes_split, highByte_toNat] at hsplit
  omega

/-- Four bytes of a number that moves on between them: no carry, and it is the number at the second one. -/
theorem bytes_of_one (c k₁ k₂ k₃ : Nat) (hlow : c % 2 ^ 8 + k₁ < 2 ^ 8)
    (hhigh : (c + k₁) % 2 ^ 16 + (k₂ + k₃) < 2 ^ 16) :
    c / 2 ^ 8 % 2 ^ 8 * 2 ^ 8 + (c + k₁) % 2 ^ 8 +
      2 ^ 16 * ((c + k₁ + k₂) / 2 ^ 24 % 2 ^ 8 * 2 ^ 8 + (c + k₁ + k₂ + k₃) / 2 ^ 16 % 2 ^ 8) = (c + k₁) % 2 ^ 32 := by
  omega

/-- With a carry it is none of the numbers in between. -/
theorem no_carry_of_bytes (c k₁ k₂ k₃ j : Nat) (hfew : k₁ + k₂ + k₃ < 2 ^ 8) (hj : j ≤ k₁ + k₂ + k₃)
    (h : c / 2 ^ 8 % 2 ^ 8 * 2 ^ 8 + (c + k₁) % 2 ^ 8 +
      2 ^ 16 * ((c + k₁ + k₂) / 2 ^ 24 % 2 ^ 8 * 2 ^ 8 + (c + k₁ + k₂ + k₃) / 2 ^ 16 % 2 ^ 8) = (c + j) % 2 ^ 32) :
    c % 2 ^ 8 + k₁ < 2 ^ 8 ∧ (c + k₁) % 2 ^ 16 + (k₂ + k₃) < 2 ^ 16 := by
  constructor
  · omega
  · omega

/-- The four bytes of a counter, each with what is counted until it is loaded. -/
theorem shown_counter (s : State F) (n : Nat) (first second third : List Event) (p : Nat) (buffer : Nat → U8) :
    (shown (readInterrupted s [([], first), (second, third)] (0x208 + 2 * n) p buffer).1 p).toNat =
      (launchAt s.regs n).toNat / 2 ^ 8 % 2 ^ 8 * 2 ^ 8 +
        (launchAt (run step s first).regs n).toNat % 2 ^ 8 +
        2 ^ 16 * ((launchAt (run step s (first ++ second)).regs n).toNat / 2 ^ 24 % 2 ^ 8 * 2 ^ 8 +
          (launchAt (run step s (first ++ second ++ third)).regs n).toNat / 2 ^ 16 % 2 ^ 8) := by
  have hwords (regs : Table) : regs (0x208 + 2 * n) = low (launchAt regs n) ∧
      regs (0x209 + 2 * n) = high (launchAt regs n) := by
    rw [launchAt, low_join, high_join]
    exact ⟨rfl, rfl⟩
  have hshown : shown (readInterrupted s [([], first), (second, third)] (0x208 + 2 * n) p buffer).1 p =
      join (joinBytes (highByte (low (launchAt s.regs n))) (lowByte (low (launchAt (run step s first).regs n))))
        (joinBytes (highByte (high (launchAt (run step s (first ++ second)).regs n)))
          (lowByte (high (launchAt (run step s (first ++ second ++ third)).regs n)))) := by
    rw [readInterrupted_eq, ← (hwords _).1, ← (hwords _).1, ← (hwords _).2, ← (hwords _).2]
    simp [shown, place, loaded, run_append, Nat.add_right_comm]
  have hlt := (launchAt (run step s (first ++ second)).regs n).isLt
  rw [hshown, join_toNat, joinBytes_toNat, joinBytes_toNat, highByte_toNat, highByte_toNat, lowByte_toNat,
    lowByte_toNat, low_toNat, low_toNat, high_toNat, high_toNat]
  omega

/-- A counter that is counted up by fewer than 256 frames while it is read shows a number it had meanwhile if and only if
there is no carry out of its low byte between the first two loads and none out of its low word behind them. -/
theorem launch_shown_iff (s : State F) (n : Nat) (hn : n < 256) (first second third : List Event) (p : Nat)
    (buffer : Nat → U8) (hintime : Allowed step (InTime n) s (first ++ second ++ third))
    (hfew : (first ++ second ++ third).countP (counted s.regs n) < 2 ^ 8) :
    (∃ events, events <+: first ++ second ++ third ∧
      shown (readInterrupted s [([], first), (second, third)] (0x208 + 2 * n) p buffer).1 p =
        launchAt (run step s events).regs n) ↔
      launchCount s.regs n % 2 ^ 8 + first.countP (counted s.regs n) < 2 ^ 8 ∧
      (launchCount s.regs n + first.countP (counted s.regs n)) % 2 ^ 16 +
        (second ++ third).countP (counted s.regs n) < 2 ^ 16 := by
  have hcounter (events : List Event) (hev : events <+: first ++ second ++ third) :
      (launchAt (run step s events).regs n).toNat =
        (launchCount s.regs n + events.countP (counted s.regs n)) % 2 ^ 32 := by
    obtain ⟨rest, hrest⟩ := hev
    rw [← hrest, allowed_append] at hintime
    rw [run_launch s events n hn hintime.1, BitVec.toNat_add, launchAt_toNat, BitVec.toNat_ofNat, Nat.add_mod_mod]
  have hfirst : first <+: first ++ second ++ third := by
    rw [List.append_assoc]
    exact List.prefix_append _ _
  have hbytes := shown_counter s n first second third p buffer
  rw [hcounter first hfirst, hcounter (first ++ second) (List.prefix_append _ _), hcounter _ List.prefix_rfl,
    launchAt_toNat, List.countP_append, List.countP_append, List.countP_append, ← Nat.add_assoc, ← Nat.add_assoc,
    ← Nat.add_assoc, Nat.mod_mod_of_dvd _ (by decide : 2 ^ 8 ∣ 2 ^ 32)] at hbytes
  have hmod (x : Nat) : x % 2 ^ 32 / 2 ^ 24 % 2 ^ 8 = x / 2 ^ 24 % 2 ^ 8 ∧
      x % 2 ^ 32 / 2 ^ 16 % 2 ^ 8 = x / 2 ^ 16 % 2 ^ 8 := by omega
  rw [(hmod _).1, (hmod _).2] at hbytes
  rw [List.countP_append]
  constructor
  · rintro ⟨events, hev, heq⟩
    have hle := hev.sublist.countP_le (p := counted s.regs n)
    rw [List.countP_append, List.countP_append] at hle hfew
    rw [heq, hcounter events hev] at hbytes
    exact no_carry_of_bytes _ _ _ _ _ hfew hle hbytes.symm
  · rintro ⟨hlow, hhigh⟩
    refine ⟨first, hfirst, BitVec.eq_of_toNat_eq ?_⟩
    rw [hbytes, hcounter first hfirst]
    exact bytes_of_one _ _ _ _ hlow hhigh

/-- A full low word, and a frame between the first two loads: the counter goes from 0xFFFF to 0x10000 and shows
0x1FF00. -/
theorem launch_shown_carry :
    ¬∃ events, events <+: [frameOfOne] ++ [] ++ [] ∧
      shown (readInterrupted fullLowWord [([], [frameOfOne]), ([], [])] (0x208 + 2 * 0) 3 fun _ => 0#8).1 3 =
        launchAt (run step fullLowWord events).regs 0 := by
  rw [launch_shown_iff fullLowWord 0 (by decide) [frameOfOne] [] [] 3 (fun _ => 0#8) ⟨trivial, trivial⟩ (by decide)]
  decide

end Counter

end DataReceiveRelay.InterruptedReads
