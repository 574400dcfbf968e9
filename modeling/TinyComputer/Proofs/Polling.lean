import Mathlib.Data.List.TakeWhile
import TinyComputer.Proofs.KeyboardQueue

/-!
# Polling a keyboard

A program that polls a keyboard reads `DEQUEUE` again and again until it reads zero. It receives the
words of the events in order, up to the first word that is zero: an empty queue gives zero, and so does
one event, the press of the key with code zero without modifiers. Programs receive every event exactly
where this one is not among them.
-/

namespace TinyComputer

namespace KeyEvent

/-- The press of the key with code zero, without modifiers. -/
def zero : KeyEvent := { key := 0 }

/-- One event has a word that cannot be told from an empty queue. -/
theorem encode_eq_ok_zero_iff {event : KeyEvent} : event.encode = .ok 0 ↔ event = zero := by
  constructor
  · intro h
    exact eq_of_encode_eq_ok h (by decide)
  · rintro rfl
    decide

/-- Words of events other than that one are not zero. -/
theorem word_eq_zero_iff {event : KeyEvent} {word : Word} (h : event.encode = .ok word) :
    word = 0 ↔ event = zero := by
  rw [← encode_eq_ok_zero_iff, h, Except.ok.injEq]

/-- The first of some words is zero if there is none, or if it is that of this event. -/
theorem headD_words_eq_zero_iff {events : List KeyEvent} {words : List Word}
    (h : List.Forall₂ (fun event word => event.encode = .ok word) events words) :
    words.headD 0 = 0 ↔ events = [] ∨ events.head? = some zero := by
  cases h with
  | nil => simp
  | cons hencode _ => simp [word_eq_zero_iff hencode]

theorem words_ne_zero_iff {events : List KeyEvent} {words : List Word}
    (h : List.Forall₂ (fun event word => event.encode = .ok word) events words) :
    (∀ word ∈ words, (word != 0) = true) ↔ zero ∉ events := by
  induction h with
  | nil => simp
  | cons hencode _ ih =>
      rw [List.forall_mem_cons, List.mem_cons, not_or, ih, bne_iff_ne, Ne, word_eq_zero_iff hencode,
        eq_comm]

end KeyEvent

namespace Keyboard

variable {keyboard : Keyboard}

/-- In poll mode an event that is accepted is put into the queue, and nothing else happens. -/
theorem use_addEvent_of_poll (hmode : keyboard.mode = .poll) (event : KeyEvent) :
    ∃ words, List.Forall₂ (fun event word => event.encode = .ok word)
        (keyboard.accepts (.addEvent event)) words ∧
      keyboard.use (.addEvent event) = { keyboard with queue := keyboard.queue ++ words } := by
  cases hadd : keyboard.addEvent event with
  | error error =>
      have haccepts : keyboard.accepts (.addEvent event) = [] := by simp only [accepts, hadd]
      rw [haccepts]
      exact ⟨[], .nil, by simp only [use, hadd, List.append_nil]⟩
  | ok after =>
      obtain ⟨word, hencode, _, rfl⟩ := addEvent_eq_ok_iff.mp hadd
      have haccepts : keyboard.accepts (.addEvent event) = [event] := by simp only [accepts, hadd]
      rw [haccepts]
      exact ⟨[word], .cons hencode .nil, by simp only [use, hadd, raise, hmode]⟩

/-- In poll mode the queue is the words of the accepted events, behind those that waited before. -/
theorem useAll_addEvent_of_poll (hmode : keyboard.mode = .poll) (events : List KeyEvent) :
    ∃ words, List.Forall₂ (fun event word => event.encode = .ok word)
        (keyboard.collect accepts (events.map .addEvent)) words ∧
      keyboard.useAll (events.map .addEvent) =
        { keyboard with queue := keyboard.queue ++ words } := by
  induction events generalizing keyboard with
  | nil => exact ⟨[], .nil, by simp [useAll]⟩
  | cons event rest ih =>
      obtain ⟨first, hfirst, huse⟩ := use_addEvent_of_poll hmode event
      have hmode' : (keyboard.use (.addEvent event)).mode = .poll := by rwa [huse]
      obtain ⟨others, hothers, hrun⟩ := ih hmode'
      refine ⟨first ++ others, List.rel_append hfirst hothers, ?_⟩
      calc
        keyboard.useAll ((event :: rest).map .addEvent)
            = (keyboard.use (.addEvent event)).useAll (rest.map .addEvent) := rfl
        _ = { keyboard with queue := keyboard.queue ++ (first ++ others) } := by
          rw [hrun, huse, List.append_assoc]

/-- The keyboard after its program has read up to the first zero. -/
def polled (keyboard : Keyboard) : Keyboard :=
  { keyboard with queue := (keyboard.queue.dropWhile (· != 0)).tail, latch := 0 }

end Keyboard

namespace Board

variable {board : Board} {id : Nat} {window : Window} {keyboard : Keyboard}

/-- Read a word at an address again and again, until it is zero. The answer is the words before the zero
and the board after it; there is none if `limit` reads have not come to a zero. -/
def poll (board : Board) (address : Word) : (limit : Nat) → Option (List Word × Board)
  | 0 => none
  | limit + 1 =>
      let (word, board) := board.readValue address 4
      if word = 0 then some ([], board)
      else (board.poll address limit).map fun (words, board) => (word :: words, board)

/-- Give key events to a keyboard, one after the other. -/
def addKeyEvents (board : Board) (id : Nat) (events : List KeyEvent) : Board :=
  events.foldl (fun board event => (board.addKeyEvent id event).2) board

/-- Events do to a keyboard on a board what they do to it by itself. -/
theorem addKeyEvent_eq (hbinding : board.bindings[id]? = some ⟨window, .keyboard keyboard⟩)
    (event : KeyEvent) :
    (board.addKeyEvent id event).2 =
      board.modifyDevice id fun _ => .keyboard (keyboard.use (.addEvent event)) := by
  unfold addKeyEvent Keyboard.use
  rw [device?_of_getElem? hbinding]
  simp only
  cases keyboard.addEvent event with
  | ok after => rfl
  | error error => exact (modifyDevice_self hbinding).symm

theorem addKeyEvents_eq (hbinding : board.bindings[id]? = some ⟨window, .keyboard keyboard⟩)
    (events : List KeyEvent) :
    board.addKeyEvents id events =
      board.modifyDevice id fun _ => .keyboard (keyboard.useAll (events.map .addEvent)) := by
  induction events generalizing board keyboard with
  | nil => exact (modifyDevice_self hbinding).symm
  | cons event rest ih =>
      have hused := getElem?_modifyDevice_self hbinding (.keyboard (keyboard.use (.addEvent event)))
      change (board.addKeyEvent id event).2.addKeyEvents id rest = _
      rw [addKeyEvent_eq hbinding, ih hused, modifyDevice_modifyDevice]
      rfl

/-- Polling gives the words that wait, up to the first zero, which is taken as well. It ends after one
more read than words wait. -/
theorem poll_eq (hbinding : board.bindings[id]? = some ⟨window, .keyboard keyboard⟩)
    (hroute : ∀ lane : Fin 4, board.routeIndex?
      (window.base + (Keyboard.dequeueOffset + UInt32.ofNat lane)) = some id)
    {limit : Nat} (hlimit : keyboard.queue.length < limit) :
    board.poll (window.base + Keyboard.dequeueOffset) limit =
      some (keyboard.queue.takeWhile (· != 0),
        board.modifyDevice id fun _ => .keyboard keyboard.polled) := by
  -- The induction is on the count of reads that are allowed, with the queue one shorter after each.
  induction limit generalizing board keyboard with
  | zero => exact absurd hlimit (Nat.not_lt_zero _)
  | succ limit ih =>
      have hread := readValue_dequeue hroute hbinding
      cases hqueue : keyboard.queue with
      | nil => simp [poll, hread, hqueue, Keyboard.pop, Keyboard.polled]
      | cons word rest =>
          by_cases hzero : word = 0
          · simp [poll, hread, hqueue, hzero, Keyboard.pop, Keyboard.polled]
          · have hshorter : keyboard.pop.queue.length < limit := by
              simp only [Keyboard.pop, hqueue, List.tail_cons, List.length_cons] at hlimit ⊢
              omega
            have hrest := ih (getElem?_modifyDevice_self hbinding (.keyboard keyboard.pop))
              (fun lane => (routeIndex?_modifyDevice board id _ _).trans (hroute lane)) hshorter
            have hwaits : keyboard.pop.queue = rest := by rw [Keyboard.pop, hqueue, List.tail_cons]
            have hpolled : keyboard.pop.polled = keyboard.polled := by
              simp [Keyboard.pop, Keyboard.polled, hqueue, hzero]
            rw [hwaits, modifyDevice_modifyDevice, hpolled] at hrest
            simp only [poll, hread, hqueue, List.headD_cons, if_neg hzero, hrest]
            simp [hzero, Function.comp_def]

/-- What a program that polls receives from a new or reset keyboard. The accepted events wait, and
polling gives their words in order, up to the first word that is zero; the events behind that one keep
waiting. A read gives zero if nothing waits, or if the oldest event is the press of the key with code
zero without modifiers. So polling gives all accepted events and leaves nothing exactly if that event is
not among them. -/
theorem polling_receives_until_zero {start : Keyboard}
    (hstart : start = {} ∨ ∃ used : Keyboard, start = used.reset)
    (hbinding : board.bindings[id]? = some ⟨window, .keyboard start⟩)
    (hroute : ∀ lane : Fin 4,
      board.routeIndex? (window.base + (0x12 + UInt32.ofNat lane)) = some id)
    (events : List KeyEvent) :
    let accepted := start.collect Keyboard.accepts (events.map .addEvent)
    let loaded := board.addKeyEvents id events
    ∃ words,
      List.Forall₂ (fun event word => event.encode = .ok word) accepted words ∧
      loaded.device? id = some (.keyboard { start with queue := words }) ∧
      (∀ limit > words.length, loaded.poll (window.base + 0x12) limit =
        some (words.takeWhile (· != 0), board.modifyDevice id fun _ =>
          .keyboard { start with queue := (words.dropWhile (· != 0)).tail })) ∧
      ((loaded.readValue (window.base + 0x12) 4).1 = 0 ↔
        accepted = [] ∨ accepted.head? = some .zero) ∧
      (.zero ∉ accepted ↔
        ∀ limit > words.length, loaded.poll (window.base + 0x12) limit = some (words, board)) := by
  have hnew : start.queue = [] ∧ start.latch = 0 ∧ start.mode = .poll := by
    rcases hstart with rfl | ⟨used, rfl⟩ <;> exact ⟨rfl, rfl, rfl⟩
  obtain ⟨hempty, hlatch, hmode⟩ := hnew
  intro accepted loaded
  obtain ⟨words, hwords, huses⟩ := Keyboard.useAll_addEvent_of_poll hmode events
  rw [hempty, List.nil_append] at huses
  have hloaded : loaded = board.modifyDevice id fun _ => .keyboard { start with queue := words } := by
    rw [← huses]
    exact addKeyEvents_eq hbinding events
  have hbinding' : loaded.bindings[id]? =
      some ⟨window, .keyboard { start with queue := words }⟩ := by
    rw [hloaded]
    exact getElem?_modifyDevice_self hbinding _
  have hroute' : ∀ lane : Fin 4, loaded.routeIndex?
      (window.base + (Keyboard.dequeueOffset + UInt32.ofNat lane)) = some id := by
    intro lane
    rw [hloaded, routeIndex?_modifyDevice]
    exact hroute lane
  have hpoll : ∀ limit > words.length, loaded.poll (window.base + 0x12) limit =
      some (words.takeWhile (· != 0), board.modifyDevice id fun _ =>
        .keyboard { start with queue := (words.dropWhile (· != 0)).tail }) := by
    intro limit hlimit
    rw [poll_eq hbinding' hroute' hlimit, hloaded, modifyDevice_modifyDevice]
    simp only [Keyboard.polled, Function.comp_def, hlatch]
  refine ⟨words, hwords, ?_, hpoll, ?_, ?_⟩
  · exact device?_of_getElem? hbinding'
  · rw [readValue_dequeue hroute' hbinding']
    exact KeyEvent.headD_words_eq_zero_iff hwords
  · rw [← KeyEvent.words_ne_zero_iff hwords]
    constructor
    · intro hall limit hlimit
      have hself : { start with queue := [] } = start := by rw [← hempty]
      rw [hpoll limit hlimit, List.takeWhile_eq_self_iff.mpr hall, List.dropWhile_eq_nil_iff.mpr hall,
        List.tail_nil, hself, modifyDevice_self hbinding]
    · intro hall
      have hsame := hall _ (Nat.lt_succ_self words.length)
      rw [hpoll _ (Nat.lt_succ_self words.length)] at hsame
      exact List.takeWhile_eq_self_iff.mp (Prod.mk.inj (Option.some.inj hsame)).1

/-- A key goes down and up while control is held, with a key that is none in between. A program that
polls receives both events, and the keyboard is left as it was. -/
theorem polling_receives_control_key :
    let start : Keyboard := { line := some 0 }
    let board := ((empty {}).attach (.keyboard {}) ⟨0x20000, 0x1000⟩).2
    let events : List KeyEvent :=
      [{ key := 0x43, control := true }, { key := 0xF0000000 },
        { key := 0x43, control := true, release := true }]
    start = Keyboard.reset { line := some 0 } ∧
    start.collect Keyboard.accepts (events.map .addEvent) =
      [{ key := 0x43, control := true }, { key := 0x43, control := true, release := true }] ∧
    ((board.addKeyEvents 0 events).readValue 0x20012 4).1 ≠ 0 ∧
    (board.addKeyEvents 0 events).poll 0x20012 3 = some ([0x20000043, 0xA0000043], board) := by
  intro start board events
  have hbinding : board.bindings[0]? = some ⟨⟨0x20000, 0x1000⟩, .keyboard start⟩ := by
    decide +kernel
  have hroute : ∀ lane : Fin 4,
      board.routeIndex? (0x20000 + (0x12 + UInt32.ofNat lane)) = some 0 := by
    decide +kernel
  have haccepted : start.collect Keyboard.accepts (events.map .addEvent) =
      [{ key := 0x43, control := true }, { key := 0x43, control := true, release := true }] := by
    decide
  have hencode₁ : KeyEvent.encode { key := 0x43, control := true } = .ok 0x20000043 := rfl
  have hencode₂ : KeyEvent.encode { key := 0x43, control := true, release := true } =
      .ok 0xA0000043 := rfl
  have hstart : start = {} ∨ ∃ used : Keyboard, start = used.reset := .inr ⟨start, rfl⟩
  obtain ⟨words, hwords, _, _, hzero, hall⟩ :=
    polling_receives_until_zero hstart hbinding hroute events
  rw [haccepted] at hwords hzero hall
  obtain rfl : words = [0x20000043, 0xA0000043] := by
    simpa [List.forall₂_cons_left_iff, hencode₁, hencode₂] using hwords
  exact ⟨rfl, haccepted, mt hzero.mp (by decide), hall.mp (by decide) 3 (by decide)⟩

/-- A key with code zero goes down, and then one with code 65. Both events are accepted, yet a program
that polls stops at the first read, as if there were none, and leaves the second event in the queue. -/
theorem polling_stops_at_key_zero :
    let board := ((empty {}).attach (.keyboard {}) ⟨0x20000, 0x1000⟩).2
    let events : List KeyEvent := [.zero, { key := 0x41 }]
    let loaded := board.addKeyEvents 0 events
    board.Assembled ∧
    board.device? 0 = some (.keyboard (Keyboard.reset { line := some 0 })) ∧
    (Keyboard.reset { line := some 0 }).collect Keyboard.accepts (events.map .addEvent) = events ∧
    loaded.device? 0 = some (.keyboard { queue := [0, 0x41], line := some 0 }) ∧
    (loaded.readValue 0x20012 4).1 = 0 ∧
    loaded.poll 0x20012 3 =
      some ([], board.modifyDevice 0 fun _ => .keyboard { queue := [0x41], line := some 0 }) := by
  intro board events loaded
  exact ⟨.attach _ _ (.empty _), by decide +kernel, by decide, by decide +kernel, by decide +kernel,
    by decide +kernel⟩

end Board

end TinyComputer
