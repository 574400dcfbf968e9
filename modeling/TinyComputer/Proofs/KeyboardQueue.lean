import Mathlib.Data.List.Forall2
import TinyComputer.Board.Host
import TinyComputer.Proofs.DeviceAccess
import TinyComputer.Proofs.LittleEndian

/-!
# The queue of a keyboard

A keyboard is a queue of at most sixteen words. Whatever its host and its program do with it, the
words that were taken from it, followed by those that wait, are the accepted events in order. Only a
read of the lowest byte of `DEQUEUE` takes a word; the other three bytes show the word that was taken
last, so that a read of the whole register takes one word and gives all of it.
-/

namespace TinyComputer

namespace KeyEvent

/-- The direction and the modifiers of an event as the digits of a binary number. -/
def modifiers (event : KeyEvent) : Nat :=
  8 * event.release.toNat + 4 * event.shift.toNat + 2 * event.control.toNat + event.alt.toNat

theorem eq_of_modifiers_eq {first second : KeyEvent} (hmodifiers : first.modifiers = second.modifiers)
    (hkey : first.key = second.key) : first = second := by
  have hdigits : ∀ a b c d a' b' c' d' : Bool,
      8 * a.toNat + 4 * b.toNat + 2 * c.toNat + d.toNat =
        8 * a'.toNat + 4 * b'.toNat + 2 * c'.toNat + d'.toNat →
      a = a' ∧ b = b' ∧ c = c' ∧ d = d' := by
    decide
  obtain ⟨release, shift, control, alt, key⟩ := first
  obtain ⟨release', shift', control', alt', key'⟩ := second
  obtain ⟨rfl, rfl, rfl, rfl⟩ := hdigits _ _ _ _ _ _ _ _ hmodifiers
  obtain rfl : key = key' := hkey
  rfl

theorem encode_eq_error_iff {event : KeyEvent} {error : DeviceError} :
    event.encode = .error error ↔
      keyBound ≤ event.key.toNat ∧ error = .invalidKey event.key := by
  unfold encode
  split
  next hkey => simp [hkey, eq_comm]
  next hkey => simp [hkey]

/-- The word of an event has the key code in its low 28 bits and the modifiers above them. -/
theorem encode_eq_ok_iff {event : KeyEvent} {word : Word} :
    event.encode = .ok word ↔
      event.key.toNat < keyBound ∧ word.toNat = keyBound * event.modifiers + event.key.toNat := by
  have hbits : ∀ release shift control alt : Bool,
      (((if release then 0x80000000 else 0) ||| (if shift then 0x40000000 else 0) |||
        (if control then 0x20000000 else 0) ||| (if alt then 0x10000000 else 0) : Word)).toNat =
      2 ^ 28 * (8 * release.toNat + 4 * shift.toNat + 2 * control.toNat + alt.toNat) := by
    decide
  unfold encode
  split
  next hkey => simp [Nat.not_lt.mpr hkey]
  next hkey =>
    have hlt : event.key.toNat < 2 ^ 28 := Nat.not_le.mp hkey
    rw [Except.ok.injEq, ← UInt32.toNat_inj, UInt32.toNat_or, hbits,
      ← Nat.two_pow_add_eq_or_of_lt hlt]
    simp [Nat.not_le.mp hkey, modifiers, eq_comm]

/-- Events with the same word are the same event. -/
theorem eq_of_encode_eq_ok {first second : KeyEvent} {word : Word}
    (hfirst : first.encode = .ok word) (hsecond : second.encode = .ok word) : first = second := by
  obtain ⟨hkey, hword⟩ := encode_eq_ok_iff.mp hfirst
  obtain ⟨hkey', hword'⟩ := encode_eq_ok_iff.mp hsecond
  simp only [keyBound] at hkey hword hkey' hword'
  apply eq_of_modifiers_eq
  · omega
  · apply UInt32.toNat_inj.mp
    omega

end KeyEvent

namespace Keyboard

/-- The keyboard after the oldest word was taken, or zero in place of it. -/
def pop (keyboard : Keyboard) : Keyboard :=
  { keyboard with queue := keyboard.queue.tail, latch := keyboard.queue.headD 0 }

/-! ## Uses of a keyboard -/

/-- What can be done with a keyboard: its host reports an event, or its program reads or writes a
byte of its window. -/
inductive Use where
  | addEvent (event : KeyEvent)
  | read (offset : Word)
  | write (offset : Word) (value : Byte)
  deriving DecidableEq, Repr

/-- The keyboard after a use. -/
def use (keyboard : Keyboard) : Use → Keyboard
  | .addEvent event =>
      match keyboard.addEvent event with
      | .error _ => keyboard
      | .ok after => after
  | .read offset => keyboard.afterRead offset
  | .write offset value => keyboard.write offset value

def useAll (keyboard : Keyboard) (uses : List Use) : Keyboard :=
  uses.foldl use keyboard

/-- The event that a use puts into the queue, if any. -/
def accepts (keyboard : Keyboard) : Use → List KeyEvent
  | .addEvent event =>
      match keyboard.addEvent event with
      | .error _ => []
      | .ok _ => [event]
  | _ => []

/-- The word that a use removes from the queue, which is the oldest one, if any. -/
def pops (keyboard : Keyboard) : Use → List Word
  | .read offset => if offset = dequeueOffset then keyboard.queue.take 1 else []
  | _ => []

/-- The word that a use latches, if any: the oldest one that waits, or zero if none does. -/
def latches (keyboard : Keyboard) : Use → List Word
  | .read offset => if offset = dequeueOffset then [keyboard.queue.headD 0] else []
  | _ => []

/-- What is seen of uses, one after the other. -/
def collect {α : Type} (observe : Keyboard → Use → List α) (keyboard : Keyboard) :
    List Use → List α
  | [] => []
  | use :: uses => observe keyboard use ++ collect observe (keyboard.use use) uses

/-! ## What one use does -/

@[simp] theorem queue_raise (keyboard : Keyboard) : keyboard.raise.queue = keyboard.queue := by
  unfold raise
  split <;> rfl

@[simp] theorem latch_raise (keyboard : Keyboard) : keyboard.raise.latch = keyboard.latch := by
  unfold raise
  split <;> rfl

@[simp] theorem queue_write (keyboard : Keyboard) (offset : Word) (value : Byte) :
    (keyboard.write offset value).queue = keyboard.queue := by
  unfold write
  split <;> rfl

@[simp] theorem latch_write (keyboard : Keyboard) (offset : Word) (value : Byte) :
    (keyboard.write offset value).latch = keyboard.latch := by
  unfold write
  split <;> rfl

theorem afterRead_dequeueOffset (keyboard : Keyboard) :
    keyboard.afterRead dequeueOffset = keyboard.pop :=
  if_pos (takesEvent_iff.mpr rfl)

theorem afterRead_of_ne (keyboard : Keyboard) {offset : Word} (hne : offset ≠ dequeueOffset) :
    keyboard.afterRead offset = keyboard :=
  if_neg fun htakes => hne (takesEvent_iff.mp htakes)

theorem addEvent_eq_ok_iff {keyboard after : Keyboard} {event : KeyEvent} :
    keyboard.addEvent event = .ok after ↔
      ∃ word, event.encode = .ok word ∧ keyboard.queue.length < capacity ∧
        after = { keyboard with queue := keyboard.queue ++ [word] }.raise := by
  unfold addEvent full
  cases event.encode with
  | error error => simp
  | ok word =>
      by_cases hroom : keyboard.queue.length < capacity
      · simp [Nat.not_le.mpr hroom, hroom, eq_comm]
      · simp [Nat.not_lt.mp hroom, hroom]

theorem addEvent_eq_error_iff {keyboard : Keyboard} {event : KeyEvent} {error : DeviceError} :
    keyboard.addEvent event = .error error ↔
      (KeyEvent.keyBound ≤ event.key.toNat ∧ error = .invalidKey event.key) ∨
      (event.key.toNat < KeyEvent.keyBound ∧ capacity ≤ keyboard.queue.length ∧
        error = .queueFull) := by
  unfold addEvent full
  cases hencode : event.encode with
  | error cause =>
      obtain ⟨hkey, rfl⟩ := KeyEvent.encode_eq_error_iff.mp hencode
      simp [hkey, Nat.not_lt.mpr hkey, eq_comm]
  | ok word =>
      have hkey := (KeyEvent.encode_eq_ok_iff.mp hencode).1
      by_cases hfull : capacity ≤ keyboard.queue.length
      · simp [hkey, Nat.not_le.mpr hkey, hfull, eq_comm]
      · simp [Nat.not_le.mpr hkey, hfull]

/-- A use puts an accepted event behind the queue, or removes the word at its front and latches it,
or leaves both the queue and the latch. -/
theorem use_cases (keyboard : Keyboard) (use : Use) :
    (∃ event word, keyboard.accepts use = [event] ∧ event.encode = .ok word ∧
      keyboard.pops use = [] ∧ keyboard.latches use = [] ∧
      keyboard.queue.length < capacity ∧ (keyboard.use use).queue = keyboard.queue ++ [word] ∧
      (keyboard.use use).latch = keyboard.latch) ∨
    (keyboard.accepts use = [] ∧ keyboard.pops use = keyboard.queue.take 1 ∧
      keyboard.latches use = [keyboard.queue.headD 0] ∧
      (keyboard.use use).queue = keyboard.queue.tail ∧
      (keyboard.use use).latch = keyboard.queue.headD 0) ∨
    (keyboard.accepts use = [] ∧ keyboard.pops use = [] ∧ keyboard.latches use = [] ∧
      (keyboard.use use).queue = keyboard.queue ∧ (keyboard.use use).latch = keyboard.latch) := by
  cases use with
  | addEvent event =>
      cases hadd : keyboard.addEvent event with
      | error error =>
          right; right
          simp [accepts, pops, latches, Keyboard.use, hadd]
      | ok after =>
          obtain ⟨word, hencode, hroom, rfl⟩ := addEvent_eq_ok_iff.mp hadd
          left
          exact ⟨event, word, by simp [accepts, hadd], hencode, rfl, rfl, hroom,
            by simp [Keyboard.use, hadd], by simp [Keyboard.use, hadd]⟩
  | read offset =>
      right
      by_cases hoffset : offset = dequeueOffset
      · subst hoffset
        left
        simp [accepts, pops, latches, Keyboard.use, afterRead_dequeueOffset, pop]
      · right
        simp [accepts, pops, latches, Keyboard.use, hoffset, afterRead_of_ne]
  | write offset value =>
      right; right
      simp [accepts, pops, latches, Keyboard.use]

/-- The words of accepted events enter the queue at its end, and words are popped from its front. -/
theorem conserved_use (keyboard : Keyboard) (use : Use) :
    ∃ words, List.Forall₂ (fun event word => event.encode = .ok word)
        (keyboard.accepts use) words ∧
      keyboard.queue ++ words = keyboard.pops use ++ (keyboard.use use).queue := by
  rcases keyboard.use_cases use with
    ⟨event, word, haccepts, hencode, hpops, _, _, hqueue, _⟩ | ⟨haccepts, hpops, _, hqueue, _⟩ |
    ⟨haccepts, hpops, _, hqueue, _⟩
  · refine ⟨[word], ?_, ?_⟩
    · rw [haccepts]
      exact .cons hencode .nil
    · rw [hpops, hqueue, List.nil_append]
  · refine ⟨[], ?_, ?_⟩
    · rw [haccepts]
      exact .nil
    · rw [hpops, hqueue, List.append_nil, ← List.drop_one, List.take_append_drop]
  · refine ⟨[], ?_, ?_⟩
    · rw [haccepts]
      exact .nil
    · rw [hpops, hqueue, List.append_nil, List.nil_append]

theorem length_queue_use {keyboard : Keyboard} (h : keyboard.queue.length ≤ capacity) (use : Use) :
    (keyboard.use use).queue.length ≤ capacity := by
  rcases keyboard.use_cases use with
    ⟨_, _, _, _, _, _, hroom, hqueue, _⟩ | ⟨_, _, _, hqueue, _⟩ | ⟨_, _, _, hqueue, _⟩
  · rw [hqueue, List.length_append]
    exact hroom
  · rw [hqueue, List.length_tail]
    omega
  · rwa [hqueue]

/-! ## What a series of uses does -/

theorem conserved (keyboard : Keyboard) (uses : List Use) :
    ∃ words, List.Forall₂ (fun event word => event.encode = .ok word)
        (keyboard.collect accepts uses) words ∧
      keyboard.queue ++ words = keyboard.collect pops uses ++ (keyboard.useAll uses).queue := by
  induction uses generalizing keyboard with
  | nil => exact ⟨[], .nil, List.append_nil _⟩
  | cons use uses ih =>
      obtain ⟨first, hfirst, hstep⟩ := keyboard.conserved_use use
      obtain ⟨rest, hrest, hrun⟩ := ih (keyboard.use use)
      refine ⟨first ++ rest, List.rel_append hfirst hrest, ?_⟩
      calc
        keyboard.queue ++ (first ++ rest)
            = keyboard.pops use ++ ((keyboard.use use).queue ++ rest) := by
          rw [← List.append_assoc, hstep, List.append_assoc]
        _ = keyboard.collect pops (use :: uses) ++ (keyboard.useAll (use :: uses)).queue := by
          rw [hrun, ← List.append_assoc]
          rfl

theorem length_queue_useAll {keyboard : Keyboard} (h : keyboard.queue.length ≤ capacity)
    (uses : List Use) : (keyboard.useAll uses).queue.length ≤ capacity := by
  induction uses generalizing keyboard with
  | nil => exact h
  | cons use uses ih => exact ih (length_queue_use h use)

/-- The latch holds what was latched last. -/
theorem latch_useAll (keyboard : Keyboard) (uses : List Use) :
    (keyboard.useAll uses).latch = (keyboard.collect latches uses).getLastD keyboard.latch := by
  induction uses generalizing keyboard with
  | nil => rfl
  | cons use uses ih =>
      change ((keyboard.use use).useAll uses).latch = _
      rw [ih, collect]
      rcases keyboard.use_cases use with
        ⟨_, _, _, _, _, hlatches, _, _, hlatch⟩ | ⟨_, _, hlatches, _, hlatch⟩ |
        ⟨_, _, hlatches, _, hlatch⟩
      · rw [hlatches, hlatch, List.nil_append]
      · rw [hlatches, hlatch, List.singleton_append, List.getLastD_cons]
      · rw [hlatches, hlatch, List.nil_append]

/-! ## What reads show -/

theorem read_queueFullOffset (keyboard : Keyboard) :
    keyboard.read 0x11 = if capacity ≤ keyboard.queue.length then 1 else 0 := by
  simp only [read, full, decide_eq_true_eq, show KeyboardRegister.ofOffset 0x11 = .queueFull from rfl]

/-- The lowest byte of `DEQUEUE` is that of the oldest word that waits, the others are those of the
latch. -/
theorem read_dequeueOffset_add (keyboard : Keyboard) (lane : Fin 4) :
    keyboard.read (dequeueOffset + UInt32.ofNat lane) =
      if lane = 0 then (keyboard.queue.headD 0).byte lane else keyboard.latch.byte lane := by
  have hregister : ∀ lane : Fin 4,
      KeyboardRegister.ofOffset (dequeueOffset + UInt32.ofNat lane) = .dequeue lane := by
    decide
  rw [read, hregister]

end Keyboard

namespace Board

variable {board : Board} {id : Nat} {window : Window} {keyboard : Keyboard} {address : Word}

theorem peek_of_keyboard (hroute : board.routeIndex? address = some id)
    (hbinding : board.bindings[id]? = some ⟨window, .keyboard keyboard⟩) :
    board.peek address = keyboard.read (address - window.base) := by
  rw [peek, route?_eq_of_routeIndex? hroute hbinding]
  rfl

theorem touch_of_keyboard (hroute : board.routeIndex? address = some id)
    (hbinding : board.bindings[id]? = some ⟨window, .keyboard keyboard⟩)
    (hoffset : address - window.base = Keyboard.dequeueOffset) :
    board.touch address = board.modifyDevice id fun _ => .keyboard keyboard.pop := by
  have htakes := Keyboard.takesEvent_iff.mpr hoffset
  have heffect : board.quiet address = false := by
    simp [quiet, route?_eq_of_routeIndex? hroute hbinding, Device.readHasEffect, Binding.offset,
      htakes]
  rw [touch, heffect, modifyAt_eq_modifyDevice hroute hbinding]
  apply modifyDevice_congr hbinding
  rw [Binding.offset, hoffset, ← Keyboard.afterRead_dequeueOffset]
  rfl

theorem touch_of_keyboard_of_ne (hroute : board.routeIndex? address = some id)
    (hbinding : board.bindings[id]? = some ⟨window, .keyboard keyboard⟩)
    (hoffset : address - window.base ≠ Keyboard.dequeueOffset) : board.touch address = board := by
  have htakes := mt Keyboard.takesEvent_iff.mp hoffset
  apply touch_of_quiet
  simp [quiet, route?_eq_of_routeIndex? hroute hbinding, Device.readHasEffect, Binding.offset,
    htakes]

/-- The upper three bytes of `DEQUEUE` are those of the latch, and reading them changes nothing. -/
theorem readBytes_latch
    (hroute : ∀ lane : Fin 4, board.routeIndex?
      (window.base + (Keyboard.dequeueOffset + UInt32.ofNat lane)) = some id)
    (hbinding : board.bindings[id]? = some ⟨window, .keyboard keyboard⟩) :
    board.readBytes (window.base + (Keyboard.dequeueOffset + 1)) 3 =
      ([keyboard.latch.byte 1, keyboard.latch.byte 2, keyboard.latch.byte 3], board) := by
  have hread : ∀ (lane : Fin 4) (offset : Word), lane ≠ 0 →
      offset = Keyboard.dequeueOffset + UInt32.ofNat lane →
      board.peek (window.base + offset) = keyboard.latch.byte lane ∧
        board.touch (window.base + offset) = board := by
    rintro lane offset hlane rfl
    have hne : Keyboard.dequeueOffset + UInt32.ofNat lane ≠ Keyboard.dequeueOffset := by
      revert lane
      decide
    constructor
    · rw [peek_of_keyboard (hroute lane) hbinding, Word.add_sub_self,
        Keyboard.read_dequeueOffset_add, if_neg hlane]
    · apply touch_of_keyboard_of_ne (hroute lane) hbinding
      rwa [Word.add_sub_self]
  obtain ⟨hpeek₁, htouch₁⟩ := hread 1 (Keyboard.dequeueOffset + 1) (by decide) rfl
  obtain ⟨hpeek₂, htouch₂⟩ := hread 2 (Keyboard.dequeueOffset + 1 + 1) (by decide) rfl
  obtain ⟨hpeek₃, htouch₃⟩ := hread 3 (Keyboard.dequeueOffset + 1 + 1 + 1) (by decide) rfl
  rw [readBytes_succ, hpeek₁, htouch₁, UInt32.add_assoc, readBytes_succ, hpeek₂, htouch₂,
    UInt32.add_assoc, readBytes_succ, hpeek₃, htouch₃, readBytes_zero]

/-- A read of the register `DEQUEUE` of a keyboard takes one word from the queue and gives all of
it. -/
theorem readValue_dequeue
    (hroute : ∀ lane : Fin 4, board.routeIndex?
      (window.base + (Keyboard.dequeueOffset + UInt32.ofNat lane)) = some id)
    (hbinding : board.bindings[id]? = some ⟨window, .keyboard keyboard⟩) :
    board.readValue (window.base + Keyboard.dequeueOffset) 4 =
      (keyboard.queue.headD 0, board.modifyDevice id fun _ => .keyboard keyboard.pop) := by
  have hlowest : board.routeIndex? (window.base + Keyboard.dequeueOffset) = some id := hroute 0
  have hpeek : board.peek (window.base + Keyboard.dequeueOffset) =
      (keyboard.queue.headD 0).byte 0 := by
    rw [peek_of_keyboard hlowest hbinding, Word.add_sub_self]
    exact keyboard.read_dequeueOffset_add 0
  -- From the read of the lowest byte on, the latch holds the word that was at the front.
  have hpopped := getElem?_modifyDevice_self hbinding (.keyboard keyboard.pop)
  have hrest := readBytes_latch
    (fun lane => (board.routeIndex?_modifyDevice id _ _).trans (hroute lane)) hpopped
  have hbytes := board.readBytes_succ (window.base + Keyboard.dequeueOffset) 3
  rw [hpeek, touch_of_keyboard hlowest hbinding (Word.add_sub_self _ _), UInt32.add_assoc,
    hrest] at hbytes
  rw [readValue, hbytes]
  exact Prod.ext (Word.ofBytes_lanes (keyboard.queue.headD 0)) rfl

theorem addKeyEvent_of_error {event : KeyEvent} {error : DeviceError}
    (h : (board.addKeyEvent id event).1 = some (.error error)) :
    (board.addKeyEvent id event).2 = board := by
  unfold addKeyEvent at h ⊢
  split
  next keyboard hdevice =>
    rw [hdevice] at h
    split
    next => rfl
    next hadd => simp [hadd] at h
  next => rfl

end Board

namespace Keyboard

/-- A keyboard that starts as new or reset is a bounded queue. The words that were popped, followed
by those that wait, are the words of the accepted events in order, and at most sixteen wait. An event
is refused if its key code is too large, and otherwise if sixteen wait; nothing changes then, and
`QUEUE_FULL` shows whether sixteen wait. The lowest byte of `DEQUEUE` belongs to the oldest word that
waits, the others to the word that was latched last. A read of all of `DEQUEUE` on a board pops once
and gives the oldest word, or zero. Different events have different words. -/
theorem bounded_fifo {start : Keyboard} (hstart : start = {} ∨ ∃ used : Keyboard, start = used.reset)
    (uses : List Use) :
    let keyboard := start.useAll uses
    List.Forall₂ (fun event word => event.encode = .ok word) (start.collect accepts uses)
      (start.collect pops uses ++ keyboard.queue) ∧
    keyboard.queue.length ≤ 16 ∧
    (∀ event error, keyboard.addEvent event = .error error ↔
      (2 ^ 28 ≤ event.key.toNat ∧ error = .invalidKey event.key) ∨
      (event.key.toNat < 2 ^ 28 ∧ keyboard.queue.length = 16 ∧ error = .queueFull)) ∧
    (∀ event error, keyboard.addEvent event = .error error →
      keyboard.use (.addEvent event) = keyboard) ∧
    (∀ (board : Board) id event error,
      (board.addKeyEvent id event).1 = some (.error error) →
        (board.addKeyEvent id event).2 = board) ∧
    keyboard.read 0x11 = (if keyboard.queue.length = 16 then 1 else 0) ∧
    (∀ lane : Fin 4, keyboard.read (0x12 + UInt32.ofNat lane) =
      if lane = 0 then (keyboard.queue.headD 0).byte lane
      else ((start.collect latches uses).getLastD 0).byte lane) ∧
    (∀ (board : Board) id window, board.bindings[id]? = some ⟨window, .keyboard keyboard⟩ →
      (∀ lane : Fin 4,
        board.routeIndex? (window.base + (0x12 + UInt32.ofNat lane)) = some id) →
      board.readValue (window.base + 0x12) 4 =
        (keyboard.queue.headD 0, board.modifyDevice id fun _ => .keyboard
          { keyboard with queue := keyboard.queue.tail, latch := keyboard.queue.headD 0 })) ∧
    ∀ (first second : KeyEvent) word,
      first.encode = .ok word → second.encode = .ok word → first = second := by
  have hempty : start.queue = [] ∧ start.latch = 0 := by
    rcases hstart with rfl | ⟨used, rfl⟩ <;> exact ⟨rfl, rfl⟩
  intro keyboard
  have hlength : keyboard.queue.length ≤ 16 :=
    length_queue_useAll (by simp [hempty.1]) uses
  have hfull : capacity ≤ keyboard.queue.length ↔ keyboard.queue.length = 16 := by
    simp only [capacity]
    omega
  refine ⟨?_, hlength, ?_, ?_, ?_, ?_, ?_, ?_, ?_⟩
  · obtain ⟨words, hwords, hqueue⟩ := start.conserved uses
    rw [hempty.1, List.nil_append] at hqueue
    rwa [← hqueue]
  · intro event error
    have hbound : KeyEvent.keyBound = 2 ^ 28 := rfl
    rw [addEvent_eq_error_iff, hfull, hbound]
  · intro event error herror
    rw [Keyboard.use, herror]
  · intro board id event error herror
    exact Board.addKeyEvent_of_error herror
  · simp only [read_queueFullOffset, hfull]
  · intro lane
    rw [read_dequeueOffset_add, latch_useAll, hempty.2]
  · intro board id window hbinding hroute
    exact Board.readValue_dequeue hroute hbinding
  · intro first second word hfirst hsecond
    exact KeyEvent.eq_of_encode_eq_ok hfirst hsecond

/-- A key goes down and up while alt is held, with a key that is none in between. The first event is
taken byte by byte, the second by a read of all of `DEQUEUE` on a board. -/
theorem bounded_fifo_of_alt_key :
    let start : Keyboard := { line := some 0 }
    let uses : List Use :=
      [.addEvent { key := 0x20, alt := true }, .addEvent { key := 0xF0000000 }, .read 0x12,
        .read 0x15, .addEvent { key := 0x20, alt := true, release := true }]
    let keyboard := start.useAll uses
    let board := ((Board.empty {}).attach (.keyboard keyboard) ⟨0x20000, 0x1000⟩).2
    start = Keyboard.reset {line := some 0} ∧
    start.collect accepts uses =
      [{ key := 0x20, alt := true }, { key := 0x20, alt := true, release := true }] ∧
    start.collect pops uses = [0x10000020] ∧ keyboard.queue = [0x90000020] ∧
    keyboard.addEvent { key := 0x10000000 } = .error (.invalidKey 0x10000000) ∧
    keyboard.read 0x15 = 0x10 ∧ (board.readValue 0x20012 4).1 = 0x90000020 := by
  intro start uses keyboard board
  obtain ⟨_, _, hrefused, _, _, _, hlane, hread, _⟩ := bounded_fifo (.inr ⟨start, rfl⟩) uses
  refine ⟨rfl, by decide, by decide, by decide, ?_, ?_, ?_⟩
  · exact (hrefused _ _).mpr (.inl ⟨by decide, rfl⟩)
  · exact (hlane 3).trans (by decide)
  · have hbinding : board.bindings[0]? = some ⟨⟨0x20000, 0x1000⟩, .keyboard keyboard⟩ := by
      decide +kernel
    have hroute : ∀ lane : Fin 4,
        board.routeIndex? (0x20000 + (0x12 + UInt32.ofNat lane)) = some 0 := by
      decide +kernel
    exact congrArg Prod.fst (hread board 0 ⟨0x20000, 0x1000⟩ hbinding hroute)

end Keyboard

end TinyComputer
