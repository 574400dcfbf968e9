import Mathlib.Data.List.Basic
import TinyComputer.Board.Access
import TinyComputer.Board.Attachment

/-!
# Routing

However devices are attached, by windows of their own or by slots, their windows have addresses, end
within the address space, and share no address. So an address has at most one device, and the first
match that routing finds is the only one. A window is refused exactly when it would break this, and
nothing changes then.
-/

namespace TinyComputer

theorem Window.overlaps_comm (first second : Window) :
    first.overlaps second = second.overlaps first :=
  Bool.and_comm _ _

/-- Windows that end within the address space do not wrap around. -/
theorem Window.toNat_base_add {window : Window} (hbound : window.bound ≤ wordBound) {offset : Word}
    (hoffset : offset.toNat < window.size.toNat) :
    (window.base + offset).toNat = window.base.toNat + offset.toNat := by
  rw [UInt32.toNat_add]
  exact Nat.mod_eq_of_lt (Nat.lt_of_lt_of_le (Nat.add_lt_add_left hoffset _) hbound)

theorem Window.contains_base_add {window : Window} (hbound : window.bound ≤ wordBound) {offset : Word}
    (hoffset : offset.toNat < window.size.toNat) : window.contains (window.base + offset) = true := by
  rw [Window.contains_iff, Window.toNat_base_add hbound hoffset]
  exact ⟨Nat.le_add_right _ _, Nat.add_lt_add_left hoffset _⟩

namespace Board

/-- The boards that calls to attach devices lead to, whether the calls succeed or fail. -/
inductive Assembled : Board → Prop
  | empty (config : Config) : Assembled (empty config)
  | attach {board : Board} (device : Device) (window : Window) :
      Assembled board → Assembled (board.attach device window).2
  | addDevice {board : Board} (device : Device) :
      Assembled board → Assembled (board.addDevice device).2

/-- The invariant of attaching: every window has addresses within the address space, and no address
lies in the windows of two devices. -/
structure Separated (board : Board) : Prop where
  size_pos : ∀ binding ∈ board.bindings, 0 < binding.window.size.toNat
  bound_le : ∀ binding ∈ board.bindings, binding.window.bound ≤ wordBound
  place_eq : ∀ {address : Word} {i j : Nat} {first second : Binding},
    board.bindings[i]? = some first → first.window.contains address = true →
    board.bindings[j]? = some second → second.window.contains address = true → i = j

theorem vacant_iff {board : Board} {window : Window} :
    board.vacant window = true ↔
      ∀ binding ∈ board.bindings, binding.window.overlaps window = false := by
  rw [vacant, Bool.not_eq_true', Array.any_eq_false']
  simp only [Bool.not_eq_true]

/-- Where windows have addresses, a window is vacant when it shares none with them. -/
theorem Separated.vacant_iff_forall_not_contains {board : Board} (h : board.Separated)
    {window : Window} (hsize : 0 < window.size.toNat) :
    board.vacant window = true ↔
      ∀ binding ∈ board.bindings, ∀ address,
        ¬ (window.contains address = true ∧ binding.window.contains address = true) := by
  rw [vacant_iff]
  refine forall₂_congr fun binding hmem => ?_
  rw [Window.overlaps_comm, ← Bool.not_eq_true, Window.overlaps_iff hsize (h.size_pos binding hmem),
    not_exists]

/-- Only devices that want a line can be given one. -/
theorem connect_of_not_wantsLine {device : Device} (h : device.kind.wantsLine = false)
    (line : Byte) : device.connect line = device := by
  cases device with
  | memory m => rfl
  | registerBank => rfl
  | storage s => contradiction
  | keyboard k => contradiction

theorem bindings_bind (board : Board) (device : Device) (window : Window) :
    (board.bind device window).bindings =
      board.bindings.push ⟨window, device.connect board.nextLine⟩ := by
  unfold bind
  split
  next => rfl
  next hwants => rw [connect_of_not_wantsLine (Bool.eq_false_iff.mpr hwants)]

/-- Attaching succeeds or fails by three conditions, and a failure changes nothing. -/
theorem attach_cases (board : Board) (device : Device) (window : Window) :
    ((0 < window.size.toNat ∧ window.bound ≤ wordBound ∧ board.vacant window = true) ∧
      board.attach device window = (.ok board.bindings.size, board.bind device window)) ∨
    (¬ (0 < window.size.toNat ∧ window.bound ≤ wordBound ∧ board.vacant window = true) ∧
      ∃ error, board.attach device window = (.error error, board)) := by
  unfold attach
  split
  next hzero =>
    right
    refine ⟨fun h => ?_, _, rfl⟩
    have hsize : window.size = 0 := by simpa using hzero
    rw [hsize] at h
    exact absurd h.1 (by decide)
  next hsize =>
    have hpos : 0 < window.size.toNat := by
      refine Nat.pos_of_ne_zero fun hzero => hsize ?_
      rw [beq_iff_eq]
      exact UInt32.toNat_inj.mp hzero
    split
    next hbound => exact .inr ⟨fun h => absurd h.2.1 (Nat.not_le.mpr hbound), _, rfl⟩
    next hbound =>
      split
      next hvacant => exact .inl ⟨⟨hpos, Nat.not_lt.mp hbound, hvacant⟩, rfl⟩
      next hvacant => exact .inr ⟨fun h => hvacant h.2.2, _, rfl⟩

theorem separated_empty (config : Config) : (empty config).Separated where
  size_pos := by simp [empty]
  bound_le := by simp [empty]
  place_eq := by simp [empty]

/-- A vacant window joins the others. -/
theorem Separated.bind {board : Board} (h : board.Separated) (device : Device) {window : Window}
    (hsize : 0 < window.size.toNat) (hbound : window.bound ≤ wordBound)
    (hvacant : board.vacant window = true) : (board.bind device window).Separated := by
  have hbindings := board.bindings_bind device window
  rw [h.vacant_iff_forall_not_contains hsize] at hvacant
  constructor
  · intro binding hmem
    rw [hbindings, Array.mem_push] at hmem
    rcases hmem with hmem | rfl
    · exact h.size_pos binding hmem
    · exact hsize
  · intro binding hmem
    rw [hbindings, Array.mem_push] at hmem
    rcases hmem with hmem | rfl
    · exact h.bound_le binding hmem
    · exact hbound
  · intro address i j first second hfirst hin hsecond hin'
    rw [hbindings, Array.getElem?_push] at hfirst hsecond
    split at hfirst
    next hi =>
      obtain rfl := Option.some.inj hfirst
      split at hsecond
      next hj => rw [hi, hj]
      next =>
        have hmem := Array.mem_of_getElem? hsecond
        exact absurd ⟨hin, hin'⟩ (hvacant second hmem address)
    next =>
      split at hsecond
      next =>
        obtain rfl := Option.some.inj hsecond
        have hmem := Array.mem_of_getElem? hfirst
        exact absurd ⟨hin', hin⟩ (hvacant first hmem address)
      next => exact h.place_eq hfirst hin hsecond hin'

/-- What holds of an empty board and stays true when a device joins at a vacant window holds of every
board that calls to attach devices lead to. The counter of slots takes no part in it. -/
theorem Assembled.preserved {P : Board → Prop} (hempty : ∀ config, P (Board.empty config))
    (hslot : ∀ (board : Board) slot, P board → P { board with nextSlot := slot })
    (hbind : ∀ (board : Board) device (window : Window), P board → 0 < window.size.toNat →
      window.bound ≤ wordBound → board.vacant window = true → P (board.bind device window))
    {board : Board} (h : board.Assembled) : P board := by
  have hattach : ∀ (board : Board) device window, P board → P (board.attach device window).2 := by
    intro board device window hboard
    rcases board.attach_cases device window with
      ⟨⟨hsize, hbound, hvacant⟩, hattach⟩ | ⟨_, error, hattach⟩
    · rw [hattach]
      exact hbind board device window hboard hsize hbound hvacant
    · rw [hattach]
      exact hboard
  induction h with
  | empty config => exact hempty config
  | attach device window _ ih => exact hattach _ device window ih
  | @addDevice board device _ ih =>
      unfold Board.addDevice
      split
      next next _ => exact hslot board next ih
      next window next _ =>
        have hattached := hattach _ device window (hslot board next ih)
        split
        next heq => rwa [heq] at hattached
        next heq => rwa [heq] at hattached

theorem Assembled.separated {board : Board} (h : board.Assembled) : board.Separated :=
  h.preserved separated_empty (fun _ _ hboard => ⟨hboard.size_pos, hboard.bound_le, hboard.place_eq⟩)
    fun _ device _ hboard hsize hbound hvacant => hboard.bind device hsize hbound hvacant

theorem route?_eq_bind (board : Board) (address : Word) :
    board.route? address = (board.routeIndex? address).bind (board.bindings[·]?) :=
  Array.find?_eq_bind_findIdx?_getElem?

/-- A search finds the first place where it holds. -/
theorem findIdx?_eq_some_iff_getElem? {bindings : Array Binding} {p : Binding → Bool} {id : Nat} :
    bindings.findIdx? p = some id ↔
      ∃ binding, bindings[id]? = some binding ∧ p binding = true ∧
        ∀ earlier < id, ∀ other, bindings[earlier]? = some other → p other = false := by
  rw [Array.findIdx?_eq_some_iff_getElem]
  constructor
  · rintro ⟨hid, hfound, hfirst⟩
    refine ⟨_, Array.getElem?_eq_getElem hid, hfound, ?_⟩
    intro earlier hlt other hother
    obtain ⟨_, rfl⟩ := Array.getElem?_eq_some_iff.mp hother
    exact Bool.eq_false_iff.mpr (hfirst earlier hlt)
  · rintro ⟨binding, hbinding, hfound, hfirst⟩
    obtain ⟨hid, rfl⟩ := Array.getElem?_eq_some_iff.mp hbinding
    refine ⟨hid, hfound, ?_⟩
    intro earlier hlt
    have hother := Array.getElem?_eq_getElem (Nat.lt_trans hlt hid)
    exact Bool.eq_false_iff.mp (hfirst earlier hlt _ hother)

/-- Routing finds the first window that contains an address. -/
theorem routeIndex?_eq_some_iff {board : Board} {address : Word} {id : Nat} :
    board.routeIndex? address = some id ↔
      ∃ binding, board.bindings[id]? = some binding ∧ binding.window.contains address = true ∧
        ∀ earlier < id, ∀ other, board.bindings[earlier]? = some other →
          other.window.contains address = false :=
  findIdx?_eq_some_iff_getElem?

/-- Where windows share no address, the first match is the only one. -/
theorem Separated.routeIndex?_eq_some_iff {board : Board} (h : board.Separated) {address : Word}
    {id : Nat} :
    board.routeIndex? address = some id ↔
      ∃ binding, board.bindings[id]? = some binding ∧
        binding.window.contains address = true := by
  rw [Board.routeIndex?_eq_some_iff]
  constructor
  · rintro ⟨binding, hbinding, hin, _⟩
    exact ⟨binding, hbinding, hin⟩
  · rintro ⟨binding, hbinding, hin⟩
    refine ⟨binding, hbinding, hin, ?_⟩
    intro earlier hlt other hother
    refine Bool.eq_false_iff.mpr fun hin' => ?_
    exact absurd (h.place_eq hother hin' hbinding hin) (Nat.ne_of_lt hlt)

theorem Separated.route?_eq_some_iff {board : Board} (h : board.Separated) {address : Word}
    {binding : Binding} :
    board.route? address = some binding ↔
      binding ∈ board.bindings ∧ binding.window.contains address = true := by
  rw [route?_eq_bind, Option.bind_eq_some_iff]
  simp only [h.routeIndex?_eq_some_iff]
  constructor
  · rintro ⟨id, ⟨found, hfound, hin⟩, hbinding⟩
    obtain rfl := Option.some.inj (hfound.symm.trans hbinding)
    exact ⟨Array.mem_of_getElem? hbinding, hin⟩
  · rintro ⟨hmem, hin⟩
    obtain ⟨id, hbinding⟩ := Array.mem_iff_getElem?.mp hmem
    exact ⟨id, ⟨binding, hbinding, hin⟩, hbinding⟩

/-- Offsets below the size of a window are routed to its device. -/
theorem Separated.route?_base_add {board : Board} (h : board.Separated) {binding : Binding}
    (hmem : binding ∈ board.bindings) {offset : Word}
    (hoffset : offset.toNat < binding.window.size.toNat) :
    board.route? (binding.window.base + offset) = some binding :=
  h.route?_eq_some_iff.mpr ⟨hmem, Window.contains_base_add (h.bound_le binding hmem) hoffset⟩

theorem Separated.attach_eq_ok_iff {board : Board} (h : board.Separated) (device : Device)
    (window : Window) :
    (∃ id, (board.attach device window).1 = .ok id) ↔
      0 < window.size.toNat ∧ window.bound ≤ wordBound ∧
        ∀ binding ∈ board.bindings, ∀ address,
          ¬ (window.contains address = true ∧ binding.window.contains address = true) := by
  have hvacant : (0 < window.size.toNat ∧ window.bound ≤ wordBound ∧
      board.vacant window = true) ↔ 0 < window.size.toNat ∧ window.bound ≤ wordBound ∧
        ∀ binding ∈ board.bindings, ∀ address,
          ¬ (window.contains address = true ∧ binding.window.contains address = true) :=
    and_congr_right fun hsize => and_congr_right fun _ =>
      h.vacant_iff_forall_not_contains hsize
  rw [← hvacant]
  rcases board.attach_cases device window with ⟨hfits, hattach⟩ | ⟨hrefused, error, hattach⟩
  · exact ⟨fun _ => hfits, fun _ => ⟨board.bindings.size, by rw [hattach]⟩⟩
  · rw [hattach]
    simp [hrefused]

theorem attach_of_error {board : Board} {device : Device} {window : Window} {error : AttachError}
    (h : (board.attach device window).1 = .error error) :
    (board.attach device window).2 = board := by
  rcases board.attach_cases device window with ⟨_, hattach⟩ | ⟨_, _, hattach⟩
  · rw [hattach] at h
    contradiction
  · rw [hattach]

/-- After any calls to attach devices, windows have addresses, end within the address space and
share none. An address is routed to a device exactly when its window contains the address. A further
window is attached exactly when it has addresses, ends within the address space and shares none with
the others, which is what the comparison of two windows finds out; a refusal changes nothing. -/
theorem assembled_routing {board : Board} (h : board.Assembled) :
    board.Separated ∧
    (∀ address id, board.routeIndex? address = some id ↔
      ∃ binding, board.bindings[id]? = some binding ∧ binding.window.contains address = true) ∧
    (∀ address binding, board.route? address = some binding ↔
      binding ∈ board.bindings ∧ binding.window.contains address = true) ∧
    (∀ device window, (∃ id, (board.attach device window).1 = .ok id) ↔
      0 < window.size.toNat ∧ window.bound ≤ wordBound ∧
        ∀ binding ∈ board.bindings, ∀ address,
          ¬ (window.contains address = true ∧ binding.window.contains address = true)) ∧
    (∀ first second : Window, 0 < first.size.toNat → 0 < second.size.toNat →
      (first.overlaps second = true ↔
        ∃ address, first.contains address = true ∧ second.contains address = true)) ∧
    ∀ device window error, (board.attach device window).1 = .error error →
      (board.attach device window).2 = board := by
  have hseparated := h.separated
  refine ⟨hseparated, ?_, ?_, ?_, ?_, ?_⟩
  · intro address id
    exact hseparated.routeIndex?_eq_some_iff
  · intro address binding
    exact hseparated.route?_eq_some_iff
  · intro device window
    exact hseparated.attach_eq_ok_iff device window
  · intro first second hfirst hsecond
    exact Window.overlaps_iff hfirst hsecond
  · intro device window error herror
    exact attach_of_error herror

/-- A window may end at the bound of the address space. The window below it then ends where it
starts. -/
theorem assembled_routing_at_the_top :
    let board := ((empty {}).attach .registerBank ⟨0xFFFFFFFC, 4⟩).2
    board.Assembled ∧ board.routeIndex? 0xFFFFFFFF = some 0 ∧
      (∃ id, (board.attach .registerBank ⟨0xFFFFFFF8, 4⟩).1 = .ok id) ∧
      ¬ ∃ id, (board.attach .registerBank ⟨0xFFFFFFF8, 5⟩).1 = .ok id := by
  intro board
  have hassembled : board.Assembled := .attach _ _ (.empty _)
  have hbindings : board.bindings = #[⟨⟨0xFFFFFFFC, 4⟩, .registerBank⟩] := by decide +kernel
  obtain ⟨_, hroute, _, hattach, _, _⟩ := assembled_routing hassembled
  refine ⟨hassembled, ?_, ?_, ?_⟩
  · exact (hroute 0xFFFFFFFF 0).mpr ⟨_, by rw [hbindings]; rfl, by decide⟩
  · refine (hattach .registerBank ⟨0xFFFFFFF8, 4⟩).mpr ⟨by decide, by decide, ?_⟩
    intro binding hmem address
    rw [hbindings, Array.mem_singleton] at hmem
    subst hmem
    simp only [Window.contains_iff, Window.bound, UInt32.reduceToNat]
    omega
  · rw [hattach]
    rintro ⟨_, _, hfree⟩
    exact hfree _ (by rw [hbindings]; exact Array.mem_singleton.mpr rfl) 0xFFFFFFFC (by decide)

end Board

end TinyComputer
