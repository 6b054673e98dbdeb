import ProtoGpu.Lib.RingBuffer
import ProtoGpu.Lib.Throwing
import ProtoGpu.Observability

/-!
# The trace ring

Whatever was pushed and read before, a snapshot is the latest events that fit into the capacity, in
the order of the pushes. A vector that could be reserved is far shorter than `2 ^ 63`, so the sum of
the head and an offset does not wrap.
-/

namespace ProtoGpu

open Throwing

/-- A buffer after the pushes of `history`. A buffer without capacity keeps nothing. -/
structure TraceBuffer.Keeps (b : TraceBuffer) (history : List Event) : Prop where
  small : b.capacity.toNat < 2 ^ 63
  size : b.size.toNat = b.ring.length
  ring : if b.capacity = 0 then b.ring = []
    else RingBuffer.Holds b.capacity.toNat history b.ring b.head.toNat

namespace TraceBuffer
variable {b : TraceBuffer} {history : List Event}

theorem vectorMaxSize_lt (elementSize : Nat) : vectorMaxSize elementSize < 2 ^ 63 :=
  lt_of_le_of_lt (Nat.div_le_self ..) (by decide)

theorem capacity_pos (hcap : b.capacity ≠ 0) : 0 < b.capacity.toNat := by
  by_contra hzero
  apply hcap
  apply BitVec.eq_of_toNat_eq
  rw [Nat.eq_zero_of_not_pos hzero]
  rfl

theorem create_keeps {eventSize : Nat} {capacity : BitVec 64}
    (hnew : create eventSize capacity = .ok b) : b.capacity = capacity ∧ b.Keeps [] := by
  unfold create at hnew
  by_cases hmax : vectorMaxSize eventSize < capacity.toNat
  · rw [if_pos hmax] at hnew
    cases hnew
  · rw [if_neg hmax] at hnew
    cases hnew
    have hlt := vectorMaxSize_lt eventSize
    refine ⟨rfl, ⟨by dsimp only; omega, rfl, ?_⟩⟩
    by_cases hcap : capacity = 0
    · rw [if_pos hcap]
    · rw [if_neg hcap]
      exact .nil (capacity_pos (b := { capacity := capacity }) hcap)

theorem capacity_push (b : TraceBuffer) (e : Event) : (b.push e).capacity = b.capacity := by
  unfold push
  split
  · rfl
  · split <;> rfl

theorem Keeps.push (h : b.Keeps history) (e : Event) : (b.push e).Keeps (history ++ [e]) := by
  have hsmall := h.small
  have hring := h.ring
  unfold TraceBuffer.push
  by_cases hcap : b.capacity = 0
  · rw [if_pos hcap] at hring ⊢
    exact ⟨hsmall, h.size, by rw [if_pos hcap, hring]⟩
  · rw [if_neg hcap] at hring ⊢
    have hlength := hring.length
    by_cases hroom : b.ring.length < b.capacity.toNat
    · rw [if_pos hroom]
      refine ⟨hsmall, ?_, ?_⟩
      · change (BitVec.ofNat 64 (b.ring ++ [e]).length).toNat = (b.ring ++ [e]).length
        rw [BitVec.toNat_ofNat, Nat.mod_eq_of_lt]
        rw [List.length_append, List.length_singleton]
        omega
      · rw [if_neg hcap]
        exact hring.append hroom e
    · rw [if_neg hroom]
      refine ⟨hsmall, ?_, ?_⟩
      · change b.capacity.toNat = (b.ring.set b.head.toNat e).length
        rw [List.length_set]
        omega
      · rw [if_neg hcap]
        have hhead := hring.head_lt
        have hnext : ((b.head + 1) % b.capacity).toNat = (b.head.toNat + 1) % b.capacity.toNat := by
          rw [BitVec.toNat_umod, BitVec.toNat_add, Nat.mod_eq_of_lt (a := b.head.toNat + _)]
          · rfl
          · change b.head.toNat + 1 < 2 ^ 64
            omega
        change RingBuffer.Holds b.capacity.toNat (history ++ [e]) (b.ring.set b.head.toNat e)
          ((b.head + 1) % b.capacity).toNat
        rw [hnext]
        exact hring.overwrite hroom e

theorem Keeps.snapshot (h : b.Keeps history) : b.snapshot = history.rtake b.capacity.toNat := by
  have hring := h.ring
  unfold TraceBuffer.snapshot
  by_cases hcap : b.capacity = 0
  · rw [if_pos hcap] at hring
    rw [hring, hcap]
    exact (List.rtake_zero history).symm
  · rw [if_neg hcap] at hring
    have hlatest := hring.latest
    by_cases hempty : b.ring.isEmpty = true
    · rw [if_pos hempty]
      rwa [List.isEmpty_iff.mp hempty, List.rotate_nil] at hlatest
    · rw [if_neg hempty]
      by_cases hroom : b.ring.length < b.capacity.toNat
      · rw [if_pos hroom]
        rwa [hring.filling hroom, List.rotate_zero] at hlatest
      · rw [if_neg hroom]
        have hsize : b.size.toNat = b.capacity.toNat := by
          have := hring.length
          have := h.size
          omega
        rw [← hring.read hroom {}, hsize]
        apply List.map_congr_left
        intro k hk
        have hk := List.mem_range.mp hk
        have hhead := hring.head_lt
        have hsmall := h.small
        have hindex : ((b.head + BitVec.ofNat 64 k) % b.capacity).toNat
            = (b.head.toNat + k) % b.capacity.toNat := by
          rw [BitVec.toNat_umod, BitVec.toNat_add, BitVec.toNat_ofNat, Nat.mod_eq_of_lt (a := k),
            Nat.mod_eq_of_lt (a := b.head.toNat + k)] <;> omega
        rw [hindex]

end TraceBuffer

/-! ### Runs -/

inductive TraceCall where
  | push (e : Event)
  | snapshot

/-- The snapshots taken in the course of the calls. -/
def TraceBuffer.run : TraceBuffer → List TraceCall → List (List Event)
  | _, [] => []
  | b, .push e :: calls => (b.push e).run calls
  | b, .snapshot :: calls => b.snapshot :: b.run calls

/-- The events pushed before each snapshot, in order, after those of `history`. -/
def pushedBefore : List Event → List TraceCall → List (List Event)
  | _, [] => []
  | history, .push e :: calls => pushedBefore (history ++ [e]) calls
  | history, .snapshot :: calls => history :: pushedBefore history calls

theorem TraceBuffer.Keeps.run {b : TraceBuffer} {history : List Event} (h : b.Keeps history)
    (calls : List TraceCall) :
    b.run calls = (pushedBefore history calls).map fun pushed => pushed.rtake b.capacity.toNat := by
  induction calls generalizing b history with
  | nil => rfl
  | cons call calls ih =>
      cases call with
      | push e =>
          have hrun := ih (h.push e)
          rw [capacity_push] at hrun
          exact hrun
      | snapshot => rw [TraceBuffer.run, pushedBefore, List.map_cons, h.snapshot, ih h]

theorem rtake_min (l : List Event) (n : Nat) : l.rtake (min l.length n) = l.rtake n := by
  rw [List.rtake, List.rtake]
  congr 1
  omega

/-- **The trace keeps the latest events.** For a capacity that can be reserved every snapshot is the
last `min n capacity` of the `n` events pushed before it, in the order of the pushes, whatever
snapshots were taken in between. -/
theorem trace_keeps_latest (eventSize : Nat) (capacity : BitVec 64) (calls : List TraceCall) :
    (TraceBuffer.create eventSize capacity).map (fun b => b.run calls)
      = if vectorMaxSize eventSize < capacity.toNat then .error "vector::reserve"
        else .ok ((pushedBefore [] calls).map fun pushed =>
          pushed.rtake (min pushed.length capacity.toNat)) := by
  cases hnew : TraceBuffer.create eventSize capacity with
  | error what =>
      unfold TraceBuffer.create at hnew
      by_cases hmax : vectorMaxSize eventSize < capacity.toNat
      · rw [if_pos hmax] at hnew ⊢
        cases hnew
        rfl
      · rw [if_neg hmax] at hnew
        cases hnew
  | ok b =>
      obtain ⟨hcap, hkeeps⟩ := TraceBuffer.create_keeps hnew
      have hmax : ¬ vectorMaxSize eventSize < capacity.toNat := by
        intro hmax
        rw [TraceBuffer.create, if_pos hmax] at hnew
        cases hnew
      rw [if_neg hmax, Except.map, hkeeps.run calls, hcap]
      simp only [rtake_min]

/-! ### The recorder -/

inductive ObsCall where
  | emit (e : Event)
  | counter (key : Text) (delta : BitVec 64)

def ObsControl.step (o : ObsControl) : ObsCall → ObsControl
  | .emit e => o.emit e
  | .counter key delta => o.counter key delta

def ObsCall.event? : ObsCall → Option Event
  | .emit e => some e
  | .counter .. => none

def ObsCall.delta? : ObsCall → Option (Text × BitVec 64)
  | .emit _ => none
  | .counter key delta => some (key, delta)

/-- What was added to a counter. -/
def counted (key : Text) (calls : List ObsCall) : List (BitVec 64) :=
  ((calls.filterMap ObsCall.delta?).filter fun c => c.1 = key).map Prod.snd

theorem lookup_incCounter (key k : Text) (delta : BitVec 64) (items : List (Text × BitVec 64)) :
    (incCounter key delta items).lookup k
      = if k = key then some ((items.lookup k).getD 0 + delta) else items.lookup k := by
  induction items with
  | nil =>
      by_cases hk : k = key
      · rw [if_pos hk, incCounter, hk, List.lookup_cons_self, List.lookup_nil, Option.getD_none]
        exact congrArg some (BitVec.zero_add delta).symm
      · rw [if_neg hk, incCounter, List.lookup_cons, beq_eq_false_iff_ne.mpr hk]
  | cons item items ih =>
      obtain ⟨name, value⟩ := item
      rw [incCounter]
      by_cases hname : name = key
      · rw [if_pos hname]
        by_cases hk : k = key
        · rw [if_pos hk, hk, hname, List.lookup_cons_self, List.lookup_cons_self, Option.getD_some]
        · have hne : (k == name) = false := beq_eq_false_iff_ne.mpr (hname ▸ hk)
          rw [if_neg hk, List.lookup_cons, List.lookup_cons, hne]
      · rw [if_neg hname, List.lookup_cons, List.lookup_cons]
        by_cases hk : k = name
        · rw [hk, beq_self_eq_true, if_neg hname]
        · rw [beq_eq_false_iff_ne.mpr hk]
          exact ih

namespace ObsControl
variable {o : ObsControl}

theorem step_disabled (hoff : o.cfg.enabled = false) (call : ObsCall) : o.step call = o := by
  cases call with
  | emit e => rw [step, emit, hoff, Bool.not_false, if_pos rfl]
  | counter key delta => rw [step, counter, hoff, Bool.not_false, if_pos rfl]

theorem foldl_step_disabled (hoff : o.cfg.enabled = false) (calls : List ObsCall) :
    calls.foldl step o = o := by
  induction calls with
  | nil => rfl
  | cons call calls ih => rw [List.foldl_cons, step_disabled hoff, ih]

/-- What an enabled recorder holds after the calls. -/
structure Records (o : ObsControl) (calls : List ObsCall) : Prop where
  enabled : o.cfg.enabled = true
  trace : o.trace.Keeps (calls.filterMap ObsCall.event?)
  counters : ∀ key, o.counters.lookup key
    = if counted key calls = [] then none else some (counted key calls).sum

theorem counted_snoc (key : Text) (calls : List ObsCall) (call : ObsCall) :
    counted key (calls ++ [call]) = counted key calls ++ counted key [call] := by
  unfold counted
  rw [List.filterMap_append, List.filter_append, List.map_append]

theorem Records.step {calls : List ObsCall} (h : o.Records calls) (call : ObsCall) :
    (o.step call).Records (calls ++ [call]) := by
  have hon := h.enabled
  cases call with
  | emit e =>
      have hstep : o.step (.emit e) = { o with trace := o.trace.push e } := by
        rw [ObsControl.step, emit, hon, Bool.not_true, if_neg Bool.false_ne_true]
      rw [hstep]
      refine ⟨hon, ?_, fun key => ?_⟩
      · rw [List.filterMap_append]
        exact h.trace.push e
      · rw [counted_snoc, show counted key [ObsCall.emit e] = [] from rfl, List.append_nil]
        exact h.counters key
  | counter k delta =>
      have hstep : o.step (.counter k delta)
          = { o with counters := incCounter k delta o.counters } := by
        rw [ObsControl.step, counter, hon, Bool.not_true, if_neg Bool.false_ne_true]
      rw [hstep]
      refine ⟨hon, ?_, fun key => ?_⟩
      · rw [List.filterMap_append, show [ObsCall.counter k delta].filterMap ObsCall.event?
          = [] from rfl,
          List.append_nil]
        exact h.trace
      · change (incCounter k delta o.counters).lookup key = _
        rw [lookup_incCounter, counted_snoc, h.counters key]
        by_cases hkey : key = k
        · have hsum : (((if counted key calls = [] then none else some (counted key calls).sum) :
              Option (BitVec 64)).getD 0) = (counted key calls).sum := by
            by_cases hnone : counted key calls = []
            · rw [if_pos hnone, hnone]
              rfl
            · rw [if_neg hnone]
              rfl
          have hone : counted key [ObsCall.counter k delta] = [delta] := by
            simp [counted, ObsCall.delta?, hkey]
          rw [if_pos hkey, hsum, hone, if_neg (by simp), List.sum_append, List.sum_singleton]
        · have hnone : counted key [ObsCall.counter k delta] = [] := by
            simp [counted, ObsCall.delta?, Ne.symm hkey]
          rw [if_neg hkey, hnone, List.append_nil]

theorem Records.foldl {calls : List ObsCall} (h : o.Records calls) (more : List ObsCall) :
    (more.foldl ObsControl.step o).Records (calls ++ more) := by
  induction more generalizing o calls with
  | nil =>
      rw [List.append_nil]
      exact h
  | cons call more ih =>
      have hnext := ih (h.step call)
      rwa [List.append_assoc] at hnext

theorem capacity_foldl (calls : List ObsCall) :
    (calls.foldl step o).trace.capacity = o.trace.capacity := by
  induction calls generalizing o with
  | nil => rfl
  | cons call calls ih =>
      rw [List.foldl_cons, ih]
      cases call with
      | emit e =>
          rw [step, emit]
          split
          · rfl
          · exact TraceBuffer.capacity_push ..
      | counter key delta =>
          rw [step, counter]
          split <;> rfl

/-- **The recorder.** An enabled one has the latest events and the sum for every key that was
counted, one that is not enabled has nothing. -/
theorem recorded {eventSize : Nat} {cfg : ObsConfig} (hnew : create eventSize cfg = .ok o)
    (calls : List ObsCall) :
    (calls.foldl step o).traceSnapshot
        = (if cfg.enabled then (calls.filterMap ObsCall.event?).rtake cfg.traceCapacity.toNat
          else [])
      ∧ ∀ key, (calls.foldl step o).countersSnapshot.lookup key
        = if cfg.enabled = false ∨ counted key calls = [] then none
          else some (counted key calls).sum := by
  obtain ⟨trace, htrace, hok⟩ := bind_ok.mp hnew
  cases hok
  obtain ⟨hcap, hkeeps⟩ := TraceBuffer.create_keeps htrace
  cases hon : cfg.enabled with
  | false =>
      rw [foldl_step_disabled hon]
      refine ⟨?_, fun key => ?_⟩
      · rw [if_neg Bool.false_ne_true, traceSnapshot, hkeeps.snapshot, List.rtake_nil]
      · rw [if_pos (.inl rfl)]
        rfl
  | true =>
      have hstart : ObsControl.Records { cfg := cfg, trace := trace } [] :=
        ⟨hon, hkeeps, fun _ => rfl⟩
      have hrecords := hstart.foldl calls
      rw [List.nil_append] at hrecords
      refine ⟨?_, fun key => ?_⟩
      · rw [if_pos rfl, traceSnapshot, hrecords.trace.snapshot, capacity_foldl, hcap]
      · rw [countersSnapshot, hrecords.counters key]
        simp

end ObsControl

end ProtoGpu
