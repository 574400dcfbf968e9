import TinyComputer.Proofs.InterruptRequests

/-!
# Logs of interrupt requests

What happens to the requests of a device is kept in a log: a request was made, a request was taken, or
the device was reset. Requests are made by status reports, by key events and by operations, where the
mode of the device asks for interrupts. A log accounts for a keyboard if its requests are those that
were made and not taken since the last reset; it accounts for a storage device if there is a request
exactly when one was made since the last reset and the last taken request.
-/

namespace TinyComputer

/-- What can happen to the requests of a device. -/
inductive Occurrence where
  | requested
  | taken
  | reset
  deriving DecidableEq, Repr

namespace Occurrence

/-- The part of a log, the latest first, that is after the last reset. -/
def sinceReset (log : List Occurrence) : List Occurrence :=
  log.takeWhile (· != reset)

/-- The part of a log, the latest first, that is after the last reset and the last taken request. -/
def sinceTaken (log : List Occurrence) : List Occurrence :=
  log.takeWhile fun occurrence => occurrence != reset && occurrence != taken

variable (log : List Occurrence)

@[simp] theorem sinceReset_requested : sinceReset (requested :: log) = requested :: sinceReset log :=
  rfl

@[simp] theorem sinceReset_taken : sinceReset (taken :: log) = taken :: sinceReset log := rfl

@[simp] theorem sinceReset_reset : sinceReset (reset :: log) = [] := rfl

@[simp] theorem sinceTaken_requested : sinceTaken (requested :: log) = requested :: sinceTaken log :=
  rfl

@[simp] theorem sinceTaken_taken : sinceTaken (taken :: log) = [] := rfl

@[simp] theorem sinceTaken_reset : sinceTaken (reset :: log) = [] := rfl

end Occurrence

open Occurrence (sinceReset sinceTaken)

namespace Device

/-! ## What happens to a device -/

/-- Whether the mode of a device asks for interrupts. -/
def interrupting : Device → Bool
  | storage s => s.mode == .interrupt
  | keyboard k => k.mode == .interrupt
  | _ => false

/-- What a status report does. -/
def raiseLog (device : Device) : List Occurrence :=
  if device.interrupting then [.requested] else []

/-- What a write to an offset does: only a storage device has operations to be started. -/
def writeLog (offset : Word) : Device → List Occurrence
  | storage s =>
      if StorageRegister.ofOffset offset = .operation then (storage s).raiseLog else []
  | _ => []

/-- What a key event does: it is refused if its key is none, or if the queue is full. -/
def eventLog (event : KeyEvent) : Device → List Occurrence
  | keyboard k =>
      if event.key.toNat < KeyEvent.keyBound ∧ k.full = false then (keyboard k).raiseLog else []
  | _ => []

/-- What asking a device for its request does. -/
def takeLog (device : Device) : List Occurrence :=
  if device.requesting then [.taken] else []

/-! ## Accounts of a device -/

/-- The requests of a device are what its log says. -/
def Accounted (log : List Occurrence) : Device → Prop
  | keyboard k =>
      (sinceReset log).count .taken + k.pending = (sinceReset log).count .requested
  | storage s => s.pending = true ↔ .requested ∈ sinceTaken log
  | _ => True

/-- A device without a request, such as a new one, has nothing to account for. -/
theorem accounted_nil {device : Device} (h : device.requestCount = 0) : Accounted [] device := by
  cases device with
  | storage s =>
      have hnone : s.pending = false := by simpa [requestCount] using h
      simp [Accounted, Occurrence.sinceTaken, hnone]
  | keyboard k =>
      have hnone : k.pending = 0 := h
      simp [Accounted, Occurrence.sinceReset, hnone]
  | _ => trivial

/-- A change of a device that a piece of its log accounts for. -/
structure Follows (log : List Occurrence) (before after : Device) : Prop where
  kind_eq : after.kind = before.kind
  accounted : ∀ earlier, before.Accounted earlier → after.Accounted (log ++ earlier)

namespace Follows

variable {first second : List Occurrence} {before middle after : Device}

theorem refl (device : Device) : Follows [] device device :=
  ⟨rfl, fun _ h => h⟩

theorem trans (hfirst : Follows first before middle) (hsecond : Follows second middle after) :
    Follows (second ++ first) before after := by
  refine ⟨hsecond.kind_eq.trans hfirst.kind_eq, fun earlier h => ?_⟩
  rw [List.append_assoc]
  exact hsecond.accounted _ (hfirst.accounted earlier h)

end Follows

/-- Nothing happens to a keyboard whose count of requests stays. -/
theorem follows_keyboard {before after : Keyboard} (h : after.pending = before.pending) :
    Follows [] (.keyboard before) (.keyboard after) := by
  refine ⟨rfl, fun earlier haccounted => ?_⟩
  simp only [Accounted, List.nil_append] at haccounted ⊢
  rwa [h]

theorem follows_storage {before after : Storage} (h : after.pending = before.pending) :
    Follows [] (.storage before) (.storage after) := by
  refine ⟨rfl, fun earlier haccounted => ?_⟩
  simp only [Accounted, List.nil_append] at haccounted ⊢
  rwa [h]

/-- A keyboard that counts one more request in interrupt mode. -/
theorem follows_keyboard_raise (before : Keyboard) {after : Keyboard}
    (h : after.pending =
      if before.mode == .interrupt then before.pending + 1 else before.pending) :
    Follows (keyboard before).raiseLog (.keyboard before) (.keyboard after) := by
  cases hmode : before.mode with
  | poll =>
      rw [hmode] at h
      rw [raiseLog, interrupting, hmode]
      exact follows_keyboard h
  | interrupt =>
      rw [hmode] at h
      rw [raiseLog, interrupting, hmode]
      refine ⟨rfl, fun earlier haccounted => ?_⟩
      simp only [Accounted] at haccounted ⊢
      rw [h]
      simp
      omega

/-- A storage device that has a request from now on in interrupt mode. -/
theorem follows_storage_raise (before : Storage) {after : Storage}
    (h : after.pending = (before.pending || before.mode == .interrupt)) :
    Follows (storage before).raiseLog (.storage before) (.storage after) := by
  cases hmode : before.mode with
  | poll =>
      rw [hmode] at h
      rw [raiseLog, interrupting, hmode]
      exact follows_storage (h.trans (Bool.or_false _))
  | interrupt =>
      rw [hmode] at h
      rw [raiseLog, interrupting, hmode]
      refine ⟨rfl, fun earlier _ => ?_⟩
      simp only [Accounted]
      simp [h]

theorem follows_raise (device : Device) (status : Byte) :
    Follows device.raiseLog device (device.raise status) := by
  cases device with
  | memory m => exact .refl _
  | registerBank => exact .refl _
  | storage s => exact follows_storage_raise s rfl
  | keyboard k =>
      refine follows_keyboard_raise k ?_
      rw [Keyboard.raise]
      cases k.mode <;> rfl

/-- Whether one storage device is in the mode of another and has a request when that one has. -/
def SameRequest (before after : Storage) : Prop :=
  after.mode = before.mode ∧ after.pending = before.pending

theorem sameRequest_readUnit (storage : Storage) : SameRequest storage storage.readUnit.2 := by
  unfold Storage.readUnit
  split
  · exact ⟨rfl, rfl⟩
  · split
    · dsimp only
      split <;> exact ⟨rfl, rfl⟩
    · exact ⟨rfl, rfl⟩

theorem sameRequest_writeUnit (storage : Storage) : SameRequest storage storage.writeUnit.2 := by
  unfold Storage.writeUnit
  split
  · exact ⟨rfl, rfl⟩
  · split
    · dsimp only
      split <;> exact ⟨rfl, rfl⟩
    · exact ⟨rfl, rfl⟩

theorem sameRequest_sizeUnit (storage : Storage) : SameRequest storage storage.sizeUnit.2 := by
  unfold Storage.sizeUnit
  split <;> exact ⟨rfl, rfl⟩

/-- Every operation ends with the report of its status, in the mode that it was started in. -/
theorem pending_execute (storage : Storage) (operation : Byte) :
    (storage.execute operation).pending = (storage.pending || storage.mode == .interrupt) := by
  have hraise : ∀ (after : Storage) (status : StorageStatus), SameRequest storage after →
      (after.raise status.code).pending = (storage.pending || storage.mode == .interrupt) := by
    rintro after status ⟨hmode, hpending⟩
    rw [Storage.raise, hmode, hpending]
  unfold Storage.execute
  split
  · exact hraise _ _ (sameRequest_readUnit _)
  · exact hraise _ _ (sameRequest_writeUnit _)
  · exact hraise _ _ (sameRequest_sizeUnit _)
  · exact hraise _ .done ⟨rfl, rfl⟩

theorem follows_write (device : Device) (offset : Word) (value : Byte) :
    Follows (device.writeLog offset) device (device.write offset value) := by
  cases device with
  | memory m => exact ⟨rfl, fun _ _ => trivial⟩
  | registerBank => exact .refl _
  | storage s =>
      simp only [writeLog, Device.write, Storage.write]
      split
      next heq =>
        rw [heq]
        exact follows_storage_raise s (pending_execute s value)
      next hne =>
        split
        next => exact follows_storage rfl
        next heq => exact absurd heq hne
        next => exact follows_storage rfl
        next => exact follows_storage rfl
        next => exact .refl _
  | keyboard k =>
      simp only [writeLog, Device.write, Keyboard.write]
      split
      next => exact follows_keyboard rfl
      next => exact .refl _

/-- A device whose request is taken had one. -/
theorem follows_acknowledge (device : Device) :
    Follows device.takeLog device device.acknowledge := by
  cases device with
  | memory m => exact .refl _
  | registerBank => exact .refl _
  | storage s =>
      cases hpending : s.pending with
      | false =>
          rw [takeLog, requesting, hpending]
          exact follows_storage hpending.symm
      | true =>
          rw [takeLog, requesting, hpending]
          refine ⟨rfl, fun earlier _ => ?_⟩
          simp [Accounted, acknowledge, Storage.acknowledge]
  | keyboard k =>
      rcases Nat.eq_zero_or_pos k.pending with hnone | hsome
      · rw [takeLog, requesting, hnone]
        refine follows_keyboard ?_
        rw [Keyboard.acknowledge, hnone]
      · rw [takeLog, requesting, decide_eq_true hsome]
        refine ⟨rfl, fun earlier haccounted => ?_⟩
        simp only [Accounted, acknowledge, Keyboard.acknowledge] at haccounted ⊢
        simp
        omega

theorem follows_reset (device : Device) : Follows [.reset] device device.reset := by
  cases device with
  | memory m => exact ⟨rfl, fun _ _ => trivial⟩
  | registerBank => exact ⟨rfl, fun _ _ => trivial⟩
  | storage s =>
      refine ⟨rfl, fun earlier _ => ?_⟩
      simp [Accounted, Device.reset, Storage.reset]
  | keyboard k =>
      refine ⟨rfl, fun earlier _ => ?_⟩
      simp [Accounted, Device.reset, Keyboard.reset]

theorem encode_cases (event : KeyEvent) :
    (event.key.toNat < KeyEvent.keyBound ∧ ∃ word, event.encode = .ok word) ∨
    (¬ event.key.toNat < KeyEvent.keyBound ∧ ∃ error, event.encode = .error error) := by
  unfold KeyEvent.encode
  split
  next hkey => exact .inr ⟨Nat.not_lt.mpr hkey, _, rfl⟩
  next hkey => exact .inl ⟨Nat.not_le.mp hkey, _, rfl⟩

/-- A key event is put into the queue, with a request in interrupt mode; or it is refused, and then
there is nothing to account for. -/
theorem addEvent_cases (before : Keyboard) (event : KeyEvent) :
    (∃ after, before.addEvent event = .ok after ∧
      Follows ((keyboard before).eventLog event) (.keyboard before) (.keyboard after)) ∨
    ((∃ error, before.addEvent event = .error error) ∧ (keyboard before).eventLog event = []) := by
  simp only [Keyboard.addEvent, eventLog]
  rcases encode_cases event with ⟨hkey, word, hencode⟩ | ⟨hkey, error, hencode⟩
  · cases hfull : before.full with
    | true => exact .inr ⟨⟨_, by rw [hencode]; rfl⟩, if_neg (by simp)⟩
    | false =>
        refine .inl ⟨_, by rw [hencode]; rfl, ?_⟩
        rw [if_pos ⟨hkey, rfl⟩]
        refine follows_keyboard_raise before ?_
        rw [Keyboard.raise]
        cases before.mode <;> rfl
  · exact .inr ⟨⟨error, by rw [hencode]⟩, if_neg fun h => hkey h.1⟩

end Device

end TinyComputer
