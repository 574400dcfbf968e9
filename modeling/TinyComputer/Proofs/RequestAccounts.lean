import TinyComputer.Board.Host
import TinyComputer.Proofs.InterruptDispatch
import TinyComputer.Proofs.RequestLog

/-!
# Accounts of interrupt requests

The host, a program and the processor change the devices of a board in any order. Everything that they
do is written to the log of each device, and the logs account for the requests of the devices all the
time. So no request is lost and none is taken twice.
-/

namespace TinyComputer

namespace Board

variable {board before middle after : Board} {id place : Nat} {first second : List Occurrence}

/-! ## What happens to the devices of a board -/

/-- Between two boards a piece of the log of one device accounts for how this device changed. -/
def Follows (id : Nat) (log : List Occurrence) (before after : Board) : Prop :=
  ∀ device, before.device? id = some device →
    ∃ changed, after.device? id = some changed ∧ device.Follows log changed

namespace Follows

theorem of_device?_eq (h : after.device? id = before.device? id) : Follows id [] before after :=
  fun device hdevice => ⟨device, h.trans hdevice, .refl device⟩

theorem trans (hfirst : Follows id first before middle) (hsecond : Follows id second middle after) :
    Follows id (second ++ first) before after := by
  intro device hdevice
  obtain ⟨changed, hchanged, hfollows⟩ := hfirst device hdevice
  obtain ⟨reached, hreached, hfollows'⟩ := hsecond changed hchanged
  exact ⟨reached, hreached, hfollows.trans hfollows'⟩

theorem trans_nil (hfirst : Follows id first before middle) (hsecond : Follows id [] middle after) :
    Follows id first before after :=
  hfirst.trans hsecond

end Follows

/-- Reads take events, not requests. -/
theorem AgreeButQueues.follows {reached : Word → Prop} (h : AgreeButQueues reached before after)
    (id : Nat) : Follows id [] before after := by
  rcases h.binding id with heq | ⟨window, keyboard, queue, latch, hbefore, hafter, _⟩
  · exact .of_device?_eq (by rw [device?, device?, heq])
  · intro device hdevice
    rw [device?, hbefore] at hdevice
    obtain rfl := Option.some.inj hdevice
    refine ⟨.keyboard { keyboard with queue, latch }, ?_, Device.follows_keyboard rfl⟩
    rw [device?, hafter, Option.map_some]

theorem follows_setRegister (board : Board) (id : Nat) (r : Register) (value : Word) :
    Follows id [] board (board.setRegister r value) :=
  .of_device?_eq rfl

/-- What happens to one device when the device with a given place is changed. -/
def logAt (board : Board) (id place : Nat) (log : Device → List Occurrence) : List Occurrence :=
  if place = id then ((board.device? id).map log).getD [] else []

/-- Nothing happens where the changed device has nothing to log. -/
theorem logAt_eq_nil {log : Device → List Occurrence}
    (h : ∀ device, board.device? place = some device → log device = []) :
    board.logAt id place log = [] := by
  rw [logAt]
  split
  next heq =>
    cases hdevice : board.device? id with
    | none => rfl
    | some device => exact h device (heq ▸ hdevice)
  next => rfl

theorem follows_modifyDevice {f : Device → Device} {log : Device → List Occurrence}
    (h : ∀ device, board.device? place = some device → device.Follows (log device) (f device))
    (id : Nat) : Follows id (board.logAt id place log) board (board.modifyDevice place f) := by
  intro device hdevice
  rw [device?_modifyDevice, logAt]
  split
  next heq =>
    rw [hdevice]
    exact ⟨f device, rfl, h device (heq ▸ hdevice)⟩
  next => exact ⟨device, hdevice, .refl device⟩

/-- What a write to an address does. -/
def writeLog (board : Board) (id : Nat) (address : Word) : List Occurrence :=
  if board.routeIndex? address = some id then
    (board.bindings[id]?.map fun binding => binding.device.writeLog (binding.offset address)).getD []
  else []

/-- What asking for the next interrupt does: the first device with a line and a request loses it. -/
def takeInterruptLog (board : Board) (id : Nat) : List Occurrence :=
  if board.requestingIndex? = some id then [.taken] else []

def writeBytesLog (board : Board) (id : Nat) (address : Word) : List Byte → List Occurrence
  | [] => []
  | byte :: rest =>
      (board.write address byte).writeBytesLog id (address + 1) rest ++ board.writeLog id address

/-- What pushing a word does: the stack may reach into the window of a device. -/
def pushLog (board : Board) (id : Nat) (value : Word) : List Occurrence :=
  let sp := board.register .sp - 4
  (board.setRegister .sp sp).writeBytesLog id sp (Word.toBytes 4 value)

def enterInterruptLog (board : Board) (id : Nat) (returnAddress : Word) : List Occurrence :=
  let pushed := board.push .w32 returnAddress
  pushed.pushLog id (pushed.register .fl) ++ board.pushLog id returnAddress

/-- What the processor does when it looks for an interrupt. -/
def serviceInterruptLog (board : Board) (id : Nat) : List Occurrence :=
  if board.flags.get .interrupts then
    match board.takeInterrupt with
    | (none, _) => []
    | (some _, taken) =>
        taken.enterInterruptLog id (taken.register .pc) ++ board.takeInterruptLog id
  else []

/-- A write is logged where its address is routed to. -/
theorem writeLog_of_routeIndex? {window : Window} {device : Device} {address : Word}
    (hroute : board.routeIndex? address = some place)
    (hbinding : board.bindings[place]? = some ⟨window, device⟩) :
    board.writeLog id address = board.logAt id place (·.writeLog (address - window.base)) := by
  rw [writeLog, logAt, hroute]
  by_cases heq : place = id
  · subst heq
    rw [if_pos rfl, if_pos rfl, device?, hbinding]
    rfl
  · rw [if_neg heq, if_neg (fun hsome => heq (Option.some.inj hsome))]

theorem follows_write (board : Board) (id : Nat) (address : Word) (value : Byte) :
    Follows id (board.writeLog id address) board (board.write address value) := by
  rcases board.write_cases address value with
    ⟨hroute, hsame⟩ | ⟨place, window, hroute, hbinding, hwrite⟩ |
    ⟨place, window, device, hroute, hbinding, hwrite⟩
  · rw [writeLog, hroute, hsame]
    exact .of_device?_eq rfl
  · have hnothing : ∀ device, board.device? place = some device →
        device.writeLog (address - window.base) = [] := by
      intro device hdevice
      obtain rfl := Option.some.inj ((device?_of_getElem? hbinding).symm.trans hdevice)
      rfl
    rw [writeLog_of_routeIndex? hroute hbinding, logAt_eq_nil hnothing, hwrite]
    exact .of_device?_eq rfl
  · rw [writeLog_of_routeIndex? hroute hbinding, hwrite]
    exact follows_modifyDevice (fun found _ => found.follows_write (address - window.base) value) id

theorem follows_writeBytes (board : Board) (id : Nat) (address : Word) (bytes : List Byte) :
    Follows id (board.writeBytesLog id address bytes) board (board.writeBytes address bytes) := by
  induction bytes generalizing board address with
  | nil => exact .of_device?_eq rfl
  | cons byte rest ih => exact (board.follows_write id address byte).trans (ih _ _)

theorem follows_push (board : Board) (id : Nat) (value : Word) :
    Follows id (board.pushLog id value) board (board.push .w32 value) :=
  (board.setRegister .sp (board.register .sp - 4)).follows_writeBytes id _ _

theorem follows_saveContext (board : Board) (id : Nat) (returnAddress : Word) :
    Follows id (board.enterInterruptLog id returnAddress) board (board.saveContext returnAddress) := by
  have hpushes := (board.follows_push id returnAddress).trans
    ((board.push .w32 returnAddress).follows_push id
      ((board.push .w32 returnAddress).register .fl))
  rw [enterInterruptLog, saveContext, setFlags_eq]
  exact hpushes.trans_nil (follows_setRegister _ id _ _)

theorem follows_enterInterrupt (board : Board) (id : Nat) (returnAddress : Word) (line : Byte) :
    Follows id (board.enterInterruptLog id returnAddress) board
      (board.enterInterrupt returnAddress line) := by
  have hsaved := board.follows_saveContext id returnAddress
  rw [enterInterrupt_eq]
  generalize board.saveContext returnAddress = saved at hsaved ⊢
  have hread := (saved.agreeButQueues_readValue (saved.config.vectorAddress line) 4).follows id
  cases hvector : saved.readValue (saved.config.vectorAddress line) 4 with
  | mk handler final =>
      rw [hvector] at hread
      simp only [hvector]
      exact (hsaved.trans_nil hread).trans_nil (final.follows_setRegister id _ _)

/-- Either no device has a request to be taken, or the next one is taken. -/
theorem takeInterrupt_cases (board : Board) :
    (board.requestingIndex? = none ∧ board.takeInterrupt = (none, board)) ∨
    ∃ place line, board.requestingIndex? = some place ∧ board.NextRequest place line ∧
      board.takeInterrupt = (some line, board.modifyDevice place Device.acknowledge) := by
  cases hindex : board.requestingIndex? with
  | none =>
      exact .inl ⟨rfl, takeInterrupt_of_forall_not_asks (requestingIndex?_eq_none_iff.mp hindex)⟩
  | some place =>
      obtain ⟨line, hnext⟩ := requestingIndex?_eq_some_iff.mp hindex
      exact .inr ⟨place, line, rfl, hnext, takeInterrupt_of_nextRequest hnext⟩

theorem follows_takeInterrupt (board : Board) (id : Nat) :
    Follows id (board.takeInterruptLog id) board board.takeInterrupt.2 := by
  rcases board.takeInterrupt_cases with ⟨hindex, htake⟩ | ⟨place, line, hindex, hnext, htake⟩
  · rw [htake, takeInterruptLog, hindex]
    exact .of_device?_eq rfl
  · obtain ⟨device, hdevice, _, hrequesting⟩ := hnext.device
    have hlog : board.takeInterruptLog id = board.logAt id place Device.takeLog := by
      rw [takeInterruptLog, hindex, logAt]
      by_cases heq : place = id
      · rw [if_pos (congrArg some heq), if_pos heq, ← heq, hdevice, Option.map_some,
          Option.getD_some, Device.takeLog, if_pos hrequesting]
      · rw [if_neg heq, if_neg (fun hsome => heq (Option.some.inj hsome))]
    rw [htake, hlog]
    exact follows_modifyDevice (fun found _ => found.follows_acknowledge) id

theorem follows_serviceInterrupt (board : Board) (id : Nat) :
    Follows id (board.serviceInterruptLog id) board board.serviceInterrupt := by
  have htaken := board.follows_takeInterrupt id
  rw [serviceInterruptLog, serviceInterrupt]
  split
  next =>
    rcases board.takeInterrupt_cases with ⟨_, htake⟩ | ⟨place, line, _, _, htake⟩
    · simp only [htake]
      exact .of_device?_eq rfl
    · rw [htake] at htaken
      simp only [htake]
      exact htaken.trans (follows_enterInterrupt _ id _ line)
  next => exact .of_device?_eq rfl

theorem follows_reset (board : Board) (id : Nat) : Follows id [.reset] board board.reset := by
  intro device hdevice
  obtain ⟨binding, hbinding, rfl⟩ := Option.map_eq_some_iff.mp hdevice
  refine ⟨binding.device.reset, ?_, binding.device.follows_reset⟩
  rw [device?, reset, Array.getElem?_map, hbinding]
  rfl

theorem follows_addKeyEvent (board : Board) (id place : Nat) (event : KeyEvent) :
    Follows id (board.logAt id place (·.eventLog event)) board (board.addKeyEvent place event).2 := by
  unfold addKeyEvent
  split
  next keyboard hkeyboard =>
    rcases Device.addEvent_cases keyboard event with
      ⟨after, hadd, hfollows⟩ | ⟨⟨error, hadd⟩, hnothing⟩
    · simp only [hadd]
      refine follows_modifyDevice (fun device hdevice => ?_) id
      obtain rfl := Option.some.inj (hkeyboard.symm.trans hdevice)
      exact hfollows
    · simp only [hadd]
      rw [logAt_eq_nil fun device hdevice => by
        obtain rfl := Option.some.inj (hkeyboard.symm.trans hdevice)
        exact hnothing]
      exact .of_device?_eq rfl
  next hother =>
    rw [logAt_eq_nil fun device hdevice => by
      cases device with
      | keyboard k => exact absurd hdevice (hother k)
      | _ => rfl]
    exact .of_device?_eq rfl

theorem follows_takeRequest (board : Board) (id place : Nat) :
    Follows id (board.logAt id place Device.takeLog) board (board.takeRequest place).2 := by
  unfold takeRequest
  split
  next => exact follows_modifyDevice (fun found _ => found.follows_acknowledge) id
  next hnone =>
    rw [logAt_eq_nil fun device hdevice => by rw [hnone] at hdevice; contradiction]
    exact .of_device?_eq rfl

/-! ## What is done to a board -/

/-- What the host, a program and the processor do to a board. -/
inductive Activity where
  | addKeyEvent (place : Nat) (event : KeyEvent)
  | raise (place : Nat) (status : Byte)
  | takeRequest (place : Nat)
  | takeInterrupt
  | serviceInterrupt
  | read (address : Word)
  | write (address : Word) (value : Byte)
  | setRegister (r : Register) (value : Word)
  | reset
  deriving DecidableEq, Repr

def perform (board : Board) : Activity → Board
  | .addKeyEvent place event => (board.addKeyEvent place event).2
  | .raise place status => board.raise place status
  | .takeRequest place => (board.takeRequest place).2
  | .takeInterrupt => board.takeInterrupt.2
  | .serviceInterrupt => board.serviceInterrupt
  | .read address => (board.read address).2
  | .write address value => board.write address value
  | .setRegister r value => board.setRegister r value
  | .reset => board.reset

/-- What an activity does to the requests of a device, the latest first. -/
def occurrences (board : Board) (id : Nat) : Activity → List Occurrence
  | .addKeyEvent place event => board.logAt id place (·.eventLog event)
  | .raise place _ => board.logAt id place Device.raiseLog
  | .takeRequest place => board.logAt id place Device.takeLog
  | .takeInterrupt => board.takeInterruptLog id
  | .serviceInterrupt => board.serviceInterruptLog id
  | .read _ => []
  | .write address _ => board.writeLog id address
  | .setRegister _ _ => []
  | .reset => [.reset]

theorem follows_perform (board : Board) (id : Nat) (activity : Activity) :
    Follows id (board.occurrences id activity) board (board.perform activity) := by
  cases activity with
  | addKeyEvent place event => exact board.follows_addKeyEvent id place event
  | raise place status =>
      exact follows_modifyDevice (fun device _ => device.follows_raise status) id
  | takeRequest place => exact board.follows_takeRequest id place
  | takeInterrupt => exact board.follows_takeInterrupt id
  | serviceInterrupt => exact board.follows_serviceInterrupt id
  | read address => exact (board.agreeButQueues_touch address).follows id
  | write address value => exact board.follows_write id address value
  | setRegister r value => exact board.follows_setRegister id r value
  | reset => exact board.follows_reset id

def performAll (board : Board) : List Activity → Board
  | [] => board
  | activity :: rest => (board.perform activity).performAll rest

/-- The log of a device over activities in a row. -/
def history (board : Board) (id : Nat) : List Activity → List Occurrence
  | [] => []
  | activity :: rest => (board.perform activity).history id rest ++ board.occurrences id activity

theorem follows_performAll (board : Board) (id : Nat) (activities : List Activity) :
    Follows id (board.history id activities) board (board.performAll activities) := by
  induction activities generalizing board with
  | nil => exact .of_device?_eq rfl
  | cons activity rest ih => exact (board.follows_perform id activity).trans (ih _)

/-- Whoever asks is told of every request that is taken, and of no other: the host that asks a device
by its answer, and who asks for the next interrupt by the line of the device. -/
structure DeliversTakes (board : Board) : Prop where
  takeRequest_iff : ∀ id, (board.takeRequest id).1 = some true ↔
    board.occurrences id (.takeRequest id) = [.taken]
  takeInterrupt_iff : ∀ line, board.takeInterrupt.1 = some line ↔
    ∃ id device, board.device? id = some device ∧ device.line? = some line ∧
      board.occurrences id .takeInterrupt = [.taken]

theorem deliversTakes (board : Board) : board.DeliversTakes := by
  constructor
  · intro id
    unfold takeRequest
    cases hdevice : board.device? id with
    | none => simp [occurrences, logAt, hdevice]
    | some device =>
        cases hrequesting : device.requesting <;>
          simp [occurrences, logAt, hdevice, Device.takeLog, hrequesting]
  · intro line
    rcases board.takeInterrupt_cases with ⟨hindex, htake⟩ | ⟨place, found, hindex, hnext, htake⟩
    · simp [htake, occurrences, takeInterruptLog, hindex]
    · obtain ⟨device, hdevice, hline, _⟩ := hnext.device
      simp [htake, occurrences, takeInterruptLog, hindex, hdevice, hline]

/-- Whatever the host, a program and the processor do to a board in whatever order, a device that had
no request at first has the requests that its log says: a keyboard those that were made and not taken
since the last reset, and a storage device one exactly if one was made since the last reset and the last
taken request. A request that is taken next is delivered. -/
theorem requests_accounted {device : Device} (hdevice : board.device? id = some device)
    (hnone : device.requestCount = 0) (activities : List Activity) :
    (∃ reached, (board.performAll activities).device? id = some reached ∧
      reached.kind = device.kind ∧ reached.Accounted (board.history id activities)) ∧
    (board.performAll activities).DeliversTakes := by
  refine ⟨?_, deliversTakes _⟩
  obtain ⟨reached, hreached, hfollows⟩ := board.follows_performAll id activities device hdevice
  refine ⟨reached, hreached, hfollows.kind_eq, ?_⟩
  have haccounted := hfollows.accounted [] (Device.accounted_nil hnone)
  rwa [List.append_nil] at haccounted

/-- A keyboard and a storage device are put into interrupt mode. The keyboard gets an event, one that
is refused, and a status; the storage device executes an operation. Then the next interrupt is taken,
which is one of the keyboard's two. -/
theorem requests_accounted_of_keyboard_and_storage :
    let board : Board :=
      { empty {} with
        bindings := #[⟨⟨0x1000, 0x20⟩, .keyboard { line := some 0 }⟩,
          ⟨⟨0x2000, 0x400⟩, .storage { units := [], line := some 1 }⟩] }
    let activities : List Activity :=
      [.write 0x1010 1, .addKeyEvent 0 { key := 5 }, .addKeyEvent 0 { key := 0xFFFFFFFF }, .raise 0 0,
        .write 0x2010 1, .write 0x2013 0, .takeInterrupt]
    (∃ keyboard, (board.performAll activities).device? 0 = some (.keyboard keyboard) ∧
      keyboard.pending = 1) ∧
    ∃ storage, (board.performAll activities).device? 1 = some (.storage storage) ∧
      storage.pending = true := by
  intro board activities
  have hkeyboard : board.history 0 activities = [.taken, .requested, .requested] := by
    decide +kernel
  have hstorage : board.history 1 activities = [.requested] := by decide +kernel
  constructor
  · obtain ⟨⟨reached, hreached, hkind, haccounted⟩, _⟩ := requests_accounted
      (show board.device? 0 = some (.keyboard { line := some 0 }) from rfl) rfl activities
    rw [hkeyboard] at haccounted
    cases reached with
    | keyboard k =>
        have hcount : 1 + k.pending = 2 := haccounted
        exact ⟨k, hreached, by omega⟩
    | _ => contradiction
  · obtain ⟨⟨reached, hreached, hkind, haccounted⟩, _⟩ := requests_accounted
      (show board.device? 1 = some (.storage { units := [], line := some 1 }) from rfl) rfl activities
    rw [hstorage] at haccounted
    cases reached with
    | storage s => exact ⟨s, hreached, haccounted.mpr List.mem_cons_self⟩
    | _ => contradiction

end Board

end TinyComputer
