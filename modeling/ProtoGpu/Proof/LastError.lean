import ProtoGpu.Proof.DeviceBytes
import ProtoGpu.Shim.Exports

/-!
# The last error of a thread

Every call but `cudaGetLastError` leaves the code it returns as the last error, `cudaSuccess`
included, except where the code comes out of `DeviceMemory`. So the last error is the code of the
latest call, and not that of the latest call that failed.
-/

namespace ProtoGpu

/-- The codes that `DeviceMemory` returns without recording them. -/
def CudaError.FromDevice (err : CudaError) : Prop :=
  err = .cudaErrorInvalidValue ∨ err = .cudaErrorInvalidDevicePointer ∨
    err = .cudaErrorInvalidMemcpyDirection

instance (err : CudaError) : Decidable err.FromDevice := inferInstanceAs (Decidable (_ ∨ _ ∨ _))

/-- The code is what the call left as the last error. -/
def Recorded (r : CudaError × Shim) : Prop := r.2.memory.errorState.lastError = r.1

/-- A code that is not recorded is one that `DeviceMemory` returned. -/
def RecordedOrDevice (r : CudaError × Shim) : Prop := r.1.FromDevice ∨ Recorded r

/-! ### `DeviceMemory` -/

/-- A success, a code of `DeviceMemory`, or one that its handler has recorded. -/
inductive DeviceResult : CudaError × ShimMemory → Prop
  | success {mem : ShimMemory} : DeviceResult (.cudaSuccess, mem)
  | device {err : CudaError} {mem : ShimMemory} : err.FromDevice → DeviceResult (err, mem)
  | handled {err : CudaError} {mem : ShimMemory} : mem.errorState.lastError = err →
    DeviceResult (err, mem)

namespace ShimMemory
variable {hostFits : Nat → Bool} {st : ShimMemory} {dst src n : Addr}

theorem caught_result (rt : Runtime) (what : String) : DeviceResult (st.caught rt what) :=
  .handled rfl

theorem memcpyHostToDevice_result : DeviceResult (st.memcpyHostToDevice hostFits dst src n) := by
  unfold memcpyHostToDevice
  split
  · exact .device (by decide)
  · split
    · exact caught_result ..
    · split
      · exact caught_result ..
      · split
        · exact caught_result ..
        · exact .success

theorem memcpyDeviceToHost_result : DeviceResult (st.memcpyDeviceToHost hostFits dst src n) := by
  unfold memcpyDeviceToHost
  split
  · exact .device (by decide)
  · split
    · exact caught_result ..
    · next buf rt halloc =>
      split
      · exact caught_result ..
      · next rt₁ hcopy =>
        -- what was copied into a buffer of its own size can be read back
        obtain ⟨-, hbuf⟩ := Runtime.hostAlloc_ok halloc
        obtain ⟨-, hbuf₁⟩ := Runtime.memcpyD2h_ok hcopy hbuf (List.length_replicate ..)
        rw [Runtime.hostRead_eq hbuf₁ (length_readSparse ..)]
        exact .success

theorem memcpyDeviceToDevice_result :
    DeviceResult (st.memcpyDeviceToDevice hostFits dst src n) := by
  unfold memcpyDeviceToDevice
  split
  · exact .device (by decide)
  · split
    · exact .device (by decide)
    · split
      · exact caught_result ..
      · split
        · exact caught_result ..
        · split
          · exact caught_result ..
          · exact .success

theorem memcpy_result (kind : CudaMemcpyKind) :
    DeviceResult (st.memcpy hostFits dst src n kind) := by
  unfold memcpy
  split
  · exact .success
  · split
    · exact .device (by decide)
    · cases kind with
      | hostToDevice => exact memcpyHostToDevice_result
      | deviceToHost => exact memcpyDeviceToHost_result
      | deviceToDevice => exact memcpyDeviceToDevice_result
      | hostToHost => exact .success
      | default => exact .device (by decide)
      | other value => exact .device (by decide)

theorem free_result (devPtr : Addr) : DeviceResult (st.free devPtr) := by
  unfold free
  split
  · exact .success
  · split
    · exact .success
    · exact .device (by decide)

end ShimMemory

namespace Shim
variable {out : Outside} {st : Shim}

theorem deviceMalloc_result (mem : ShimMemory) (devPtr size : Addr) :
    DeviceResult (deviceMalloc out mem devPtr size) := by
  unfold deviceMalloc
  split
  · exact .device (by decide)
  · next hptr =>
    split
    · exact .success
    · next hsize =>
      split
      · exact .handled rfl
      · unfold ShimMemory.malloc
        rw [if_neg hptr, if_neg hsize]
        exact .success

/-! ### One call -/

theorem recorded_fail (err : CudaError) (msg : String) : Recorded (st.fail err msg) := rfl

theorem recorded_succeed : Recorded st.succeed := rfl

theorem returned_result {rc : CudaError} {mem : ShimMemory} (h : DeviceResult (rc, mem)) :
    RecordedOrDevice (returned rc { st with memory := mem }) := by
  unfold returned
  cases h with
  | success => exact .inr rfl
  | device hdevice => exact .inl hdevice
  | handled hrecorded =>
      refine .inr ?_
      split
      · next hsuccess => exact hsuccess.symm
      · exact hrecorded

/-- Handlers record. -/
theorem guarded_records {P : CudaError × Shim → Prop} (hfail : ∀ st err msg, P (fail st err msg))
    {name : String} {body : CudaError × Shim} (hbody : P body) : P (guarded name out body) := by
  unfold guarded
  split
  · exact hbody
  · exact hfail ..
  · exact hfail ..

theorem initialized_records {P : CudaError × Shim → Prop}
    (hfail : ∀ st err msg, P (fail st err msg))
    {body : Shim → CudaError × Shim} (hbody : ∀ st, P (body st)) : P (st.initialized out body) := by
  unfold initialized
  split
  · exact hfail ..
  · exact hbody _

theorem recorded_launch (func : Addr) (c : CallConfig) (args : Option (Nat → Addr)) :
    Recorded (st.launch out func c args) := by
  unfold launch
  split
  · rfl
  · split
    · rfl
    · dsimp only
      split
      · rfl
      · unfold reportRun
        split
        · rfl
        · split
          · rfl
          · rfl

theorem recorded_synchronize : Recorded (st.synchronize out) := by
  refine initialized_records (fun st err msg => recorded_fail err msg) fun st => ?_
  split
  · rfl
  · rfl

theorem copy_result (dst src count : Addr) (kind : CudaMemcpyKind) :
    RecordedOrDevice (st.copy out dst src count kind) :=
  initialized_records (fun _ err msg => .inr (recorded_fail err msg)) fun st =>
    returned_result (st.memory.memcpy_result kind)

end Shim

/-- The calls that return codes of `DeviceMemory`. -/
def ApiCall.usesDeviceMemory : ApiCall → Bool
  | .malloc .. => true
  | .free .. => true
  | .memcpy .. => true
  | .memcpyAsync .. => true
  | _ => false

def ApiCall.isGet : ApiCall → Bool
  | .getLastError => true
  | _ => false

/-- The call returned a code straight from `DeviceMemory`. -/
def Unrecorded (entry : ApiCall × CudaError) : Prop :=
  entry.1.usesDeviceMemory = true ∧ entry.2.FromDevice

namespace Shim
variable {out : Outside} {st : Shim}

/-- Every other call leaves its code as the last error. -/
theorem call_recorded {call : ApiCall} (hget : call.isGet = false)
    (hdevice : ¬ Unrecorded (call, (st.call out call).1)) : Recorded (st.call out call) := by
  have hfail : ∀ (st : Shim) err msg, Recorded (fail st err msg) := fun _ => recorded_fail
  have hfail' : ∀ (st : Shim) err msg, RecordedOrDevice (fail st err msg) :=
    fun _ err msg => .inr (recorded_fail err msg)
  have hpass : call.usesDeviceMemory = true → RecordedOrDevice (st.call out call) →
      Recorded (st.call out call) :=
    fun huses h => h.resolve_left fun hcode => hdevice ⟨huses, hcode⟩
  cases call with
  | malloc devPtr size =>
      refine hpass rfl (guarded_records hfail' (initialized_records hfail' fun st => ?_))
      exact returned_result (deviceMalloc_result st.memory devPtr size)
  | free devPtr =>
      refine hpass rfl (guarded_records hfail' (initialized_records hfail' fun st => ?_))
      exact returned_result (st.memory.free_result devPtr)
  | memcpy dst src count kind => exact hpass rfl (guarded_records hfail' (copy_result ..))
  | memcpyAsync dst src count kind stream =>
    exact hpass rfl (guarded_records hfail' (copy_result ..))
  | streamCreate pStream =>
      refine guarded_records hfail ?_
      split
      · rfl
      · refine initialized_records hfail fun st => ?_
        split
        · rfl
        · rfl
  | streamDestroy stream =>
      refine guarded_records hfail ?_
      split
      · rfl
      · rfl
  | streamSynchronize stream => exact recorded_synchronize
  | streamQuery stream => exact initialized_records hfail fun _ => recorded_succeed
  | deviceSynchronize => exact recorded_synchronize
  | launchKernel func config args =>
      exact guarded_records hfail (initialized_records hfail fun st => recorded_launch func _ args)
  | getLastError => cases hget

/-! ### Sequences of calls -/

/-- The calls since the last `cudaGetLastError`, the latest first. -/
def sinceGet (log : List (ApiCall × CudaError)) : List (ApiCall × CudaError) :=
  log.reverse.takeWhile fun entry => !entry.1.isGet

theorem sinceGet_snoc (log : List (ApiCall × CudaError)) (entry : ApiCall × CudaError) :
    sinceGet (log ++ [entry]) = if entry.1.isGet then [] else entry :: sinceGet log := by
  unfold sinceGet
  rw [List.reverse_append, List.reverse_singleton, List.singleton_append, List.takeWhile_cons]
  cases entry.1.isGet with
  | true => rfl
  | false => rfl

/-- The last error is the code of the latest call. -/
def Latest (log : List (ApiCall × CudaError)) (st : Shim) : Prop :=
  match (sinceGet log).head? with
  | none => st.memory.errorState.lastError = .cudaSuccess
  | some entry => ¬ Unrecorded entry → st.memory.errorState.lastError = entry.2

theorem latest_call (out : Outside) (st : Shim) (log : List (ApiCall × CudaError))
    (call : ApiCall) : Latest (log ++ [(call, (st.call out call).1)]) (st.call out call).2 := by
  unfold Latest
  rw [sinceGet_snoc]
  cases hget : call.isGet with
  | true =>
      cases call with
      | getLastError => rfl
      | _ => cases hget
  | false => exact call_recorded hget

theorem latest_runCalls {log : List (ApiCall × CudaError)} (h : Latest log st)
    (calls : List (Outside × ApiCall)) :
    Latest (log ++ (st.runCalls calls).1) (st.runCalls calls).2 := by
  induction calls generalizing log st with
  | nil => exact (List.append_nil log).symm ▸ h
  | cons step calls ih =>
      obtain ⟨out, call⟩ := step
      have hnext := ih (latest_call out st log call)
      rw [List.append_assoc] at hnext
      exact hnext

/-- **The last error.** From the start of a thread, `cudaGetLastError` returns the code of the
latest call since the one before it, be it a success, and `cudaSuccess` where there is none; only
after a code that came straight out of `DeviceMemory` this is left open. Every other error is
recorded by the call that returns it. -/
theorem last_error_latest (hstart : st.memory.errorState.lastError = .cudaSuccess) :
    (∀ (calls : List (Outside × ApiCall)) (out : Outside),
      let (log, st') := st.runCalls calls
      match (sinceGet log).head? with
      | none => (st'.call out .getLastError).1 = .cudaSuccess
      | some entry => ¬ Unrecorded entry → (st'.call out .getLastError).1 = entry.2)
    ∧ ∀ (st' : Shim) (out : Outside) (call : ApiCall), call.isGet = false →
      ¬ Unrecorded (call, (st'.call out call).1) →
        (st'.call out call).2.memory.errorState.lastError = (st'.call out call).1 := by
  have hempty : Latest [] st := hstart
  exact ⟨fun calls out => latest_runCalls hempty calls, fun st' out call hget => call_recorded hget⟩

/-- Assets load, handles are there, and a kernel does nothing. -/
def plainOutside : Outside where
  load := .ok ({}, 32)
  hostFits := fun _ => true
  newHandle := some 4096
  run := fun rt _ _ _ _ _ => (.ok { completed := true }, rt)

/-- A launch without a function. -/
def nullLaunch : ApiCall := .launchKernel 0 { grid := { x := 1 }, block := { x := 1 } } none

/-- The launch is the latest call, behind a pointer that is none. -/
theorem last_error_latest_launch :
    (((Shim.runCalls {} [(plainOutside, .free 64), (plainOutside, nullLaunch)]).2).call plainOutside
      .getLastError).1 = .cudaErrorInvalidDeviceFunction := by
  have hstart : ({} : Shim).memory.errorState.lastError = .cudaSuccess := rfl
  exact (last_error_latest hstart).1 [(plainOutside, .free 64), (plainOutside, nullLaunch)]
    plainOutside
    fun h => Bool.false_ne_true h.1

/-- A query erases the error of a launch, and the error of a `cudaFree` is never seen. -/
theorem errors_lost :
    (Shim.runCalls {} [(plainOutside, nullLaunch), (plainOutside, .streamQuery 0),
      (plainOutside, .getLastError)]).1.map Prod.snd
      = [.cudaErrorInvalidDeviceFunction, .cudaSuccess, .cudaSuccess]
    ∧ (Shim.runCalls {} [(plainOutside, .free 64), (plainOutside, .getLastError)]).1.map Prod.snd
      = [.cudaErrorInvalidDevicePointer, .cudaSuccess] := ⟨rfl, rfl⟩

end Shim

end ProtoGpu
