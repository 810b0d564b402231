import HbbCommon.Transport.Input

/-!
# No key stays pressed

Seen from outside, a receiver returns events. What it returned last about a key or
a button is whether it holds that key or button: `apply` returns an event only when
it changes that, and `release_all` returns the release of everything held. Repeats
of a press or a release are swallowed, so the events about each of them alternate.
-/

namespace HbbCommon.Transport

open HbbCommon.Base

/-- What can be held down. -/
inductive InputControl
  | key (keyCode : UInt32)
  | button (button : MouseButton)
  deriving DecidableEq, Repr

/-- The key or button that an event presses or releases. -/
def ReliableInputEvent.press? : ReliableInputEvent → Option (InputControl × Bool)
  | .key keyCode pressed _ => some (.key keyCode, pressed)
  | .mouseButton button pressed _ _ _ => some (.button button, pressed)
  | .wheel _ _ _ => none

/-- The presses (`true`) and releases (`false`) of one key or button, in order. -/
def presses (control : InputControl) (events : List ReliableInputEvent) : List Bool :=
  events.filterMap (fun event =>
    match event.press? with
    | some (other, pressed) => if other = control then some pressed else none
    | none => none)

/-- The last event about a key or button was a press. -/
def heldAfter (control : InputControl) (events : List ReliableInputEvent) : Bool :=
  (presses control events).getLastD false

/-- Presses and releases alternate, the first of them being a press. -/
def Alternate (control : InputControl) (events : List ReliableInputEvent) : Prop :=
  List.IsChain (fun before after => after = !before) (false :: presses control events)

theorem presses_append (control : InputControl) (events events' : List ReliableInputEvent) :
    presses control (events ++ events') = presses control events ++ presses control events' :=
  List.filterMap_append

theorem presses_own {event : ReliableInputEvent} {control : InputControl} {pressed : Bool}
    (h : event.press? = some (control, pressed)) : presses control [event] = [pressed] := by
  simp [presses, h]

theorem presses_other {event : ReliableInputEvent} {control other : InputControl} {pressed : Bool}
    (h : event.press? = some (control, pressed)) (hother : other ≠ control) :
    presses other [event] = [] := by
  simp [presses, h, Ne.symm hother]

theorem heldAfter_append (control : InputControl) (events events' : List ReliableInputEvent) :
    heldAfter control (events ++ events') =
      (presses control events').getLastD (heldAfter control events) := by
  unfold heldAfter
  rw [presses_append]
  simp only [List.getLastD_eq_getLast?, List.getLast?_append]
  cases (presses control events').getLast? <;> rfl

/-- Alternation goes on when the next event about each key or button, if any, is the
other of the two. -/
theorem Alternate.append {control : InputControl} {events events' : List ReliableInputEvent}
    (h : Alternate control events)
    (hnext : List.IsChain (fun before after => after = !before)
      (heldAfter control events :: presses control events')) :
    Alternate control (events ++ events') := by
  unfold Alternate heldAfter at *
  rw [presses_append]
  generalize presses control events = old at h hnext ⊢
  generalize false = first at h hnext ⊢
  induction old generalizing first with
  | nil => exact hnext
  | cons b old ih =>
      obtain ⟨hb, hold⟩ := List.isChain_cons_cons.mp h
      rw [List.getLastD_cons] at hnext
      exact List.isChain_cons_cons.mpr ⟨hb, ih b hold hnext⟩

namespace ReliableInputReceiver

/-- The receiver holds a key or button. -/
def holds (r : ReliableInputReceiver) : InputControl → Bool
  | .key keyCode => r.pressedKeys.contains keyCode
  | .button button => hasBits r.pressedButtons button.mask

end ReliableInputReceiver

theorem MouseButton.mask_isBit (button : MouseButton) : ∃ i, button.mask.toNat = 2 ^ i := by
  cases button with
  | left => exact ⟨0, rfl⟩
  | right => exact ⟨1, rfl⟩
  | middle => exact ⟨2, rfl⟩
  | back => exact ⟨3, rfl⟩
  | forward => exact ⟨4, rfl⟩

/-- The masks of different buttons have no bit in common. -/
theorem MouseButton.hasBits_mask (button other : MouseButton) :
    hasBits button.mask other.mask = decide (other = button) := by
  cases button <;> cases other <;> rfl

namespace ReliableInputReceiver

@[simp] theorem holds_new (control : InputControl) : new.holds control = false := by
  cases control with
  | key keyCode => rfl
  | button button => cases button <;> rfl

/-- What an event does: it sets the state of its own key or button, and counts as a
change when that state was the other one. -/
theorem update_spec (r : ReliableInputReceiver) {event : ReliableInputEvent}
    {control : InputControl} {pressed : Bool} (hpress : event.press? = some (control, pressed)) :
    (∀ other, (r.update event).1.holds other =
      if other = control then pressed else r.holds other) ∧
    (r.update event).2 = (r.holds control != pressed) := by
  cases event with
  | wheel deltaX deltaY displayId => cases hpress
  | key keyCode pressed' modifiers =>
      cases hpress
      cases pressed with
      | true =>
          refine ⟨?_, by cases h : r.pressedKeys.contains keyCode <;> simp [update, holds, h]⟩
          intro other
          cases other with
          | key other =>
              simp only [update, if_true, holds, OrdMap.contains_insert, InputControl.key.injEq]
              by_cases hkey : other = keyCode
              · simp [hkey]
              · simp [hkey]
          | button other => rfl
      | false =>
          refine ⟨?_, by cases h : r.pressedKeys.contains keyCode <;> simp [update, holds, h]⟩
          intro other
          cases other with
          | key other =>
              simp only [update, Bool.false_eq_true, if_false, holds, OrdMap.contains,
                OrdMap.get?_erase, InputControl.key.injEq]
              by_cases hkey : other = keyCode
              · simp [hkey]
              · simp [hkey]
          | button other => rfl
  | mouseButton button pressed' x y displayId =>
      cases hpress
      cases pressed with
      | true =>
          refine ⟨?_, by simp [update, holds]⟩
          intro other
          cases other with
          | key other => rfl
          | button other =>
              obtain ⟨i, hi⟩ := other.mask_isBit
              simp only [update, if_true, holds, hasBits_or hi, MouseButton.hasBits_mask,
                InputControl.button.injEq]
              by_cases hbutton : other = button
              · simp [hbutton]
              · simp [hbutton]
      | false =>
          refine ⟨?_, by simp [update, holds]⟩
          intro other
          cases other with
          | key other => rfl
          | button other =>
              obtain ⟨i, hi⟩ := other.mask_isBit
              simp only [update, Bool.false_eq_true, if_false, holds, hasBits_and hi,
                hasBits_not hi, MouseButton.hasBits_mask, InputControl.button.injEq]
              by_cases hbutton : other = button
              · simp [hbutton]
              · simp [hbutton]

/-- The last sequence number plays no part in what is held. -/
theorem holds_lastSequence (r : ReliableInputReceiver) (n : Nat) (control : InputControl) :
    ({ r with lastSequence := n } : ReliableInputReceiver).holds control = r.holds control := by
  cases control <;> rfl

/-- The events that a call of `apply` returns. -/
def returned (result : Except InputProtocolError (Option ReliableInputEvent)) :
    List ReliableInputEvent :=
  match result with
  | .ok (some event) => [event]
  | _ => []

/-- A call of `apply` returns nothing about a key or button and leaves it as it is, or
returns the event that turns it over. -/
theorem apply_spec (r : ReliableInputReceiver) (sequenceNumber : Nat) (payload : Bytes)
    (control : InputControl) :
    (presses control (returned (r.apply sequenceNumber payload).2) = [] ∧
      (r.apply sequenceNumber payload).1.holds control = r.holds control) ∨
    (presses control (returned (r.apply sequenceNumber payload).2) = [!r.holds control] ∧
      (r.apply sequenceNumber payload).1.holds control = !r.holds control) := by
  unfold apply
  split
  · exact .inl ⟨rfl, rfl⟩
  · split
    · exact .inl ⟨rfl, rfl⟩
    · rename_i event _
      cases hpress : event.press? with
      | none =>
          refine .inl ?_
          cases event with
          | key keyCode pressed modifiers => cases hpress
          | mouseButton button pressed x y displayId => cases hpress
          | wheel deltaX deltaY displayId => exact ⟨rfl, holds_lastSequence r _ control⟩
      | some press =>
          obtain ⟨changedControl, pressed⟩ := press
          obtain ⟨hholds, hchanged⟩ :=
            update_spec { r with lastSequence := sequenceNumber } hpress
          simp only [hholds, hchanged, holds_lastSequence]
          by_cases hsame : r.holds changedControl = pressed
          · -- a repeat is swallowed
            refine .inl ⟨by simp [hsame, returned, presses], ?_⟩
            by_cases hcontrol : control = changedControl
            · rw [if_pos hcontrol, hcontrol, hsame]
            · rw [if_neg hcontrol]
          · have hturn : pressed = !r.holds changedControl :=
              Bool.eq_not_of_ne (fun h => hsame h.symm)
            rw [if_pos (bne_iff_ne.mpr hsame)]
            by_cases hcontrol : control = changedControl
            · refine .inr ⟨?_, by rw [if_pos hcontrol, hturn, hcontrol]⟩
              rw [hcontrol, ← hturn]
              exact presses_own hpress
            · refine .inl ⟨?_, by rw [if_neg hcontrol]⟩
              exact presses_other hpress hcontrol

/-- An error leaves the receiver as it is. -/
theorem apply_error {r r' : ReliableInputReceiver} {sequenceNumber : Nat} {payload : Bytes}
    {error : InputProtocolError} (h : r.apply sequenceNumber payload = (r', .error error)) :
    r' = r := by
  unfold apply at h
  split at h
  · cases h
    rfl
  · split at h
    · cases h
      rfl
    · cases h

/-! ## Releasing everything -/

/-- Releases of different keys and buttons, one each. -/
theorem presses_releases {events : List ReliableInputEvent} {controls : List InputControl}
    (hreleases : events.map ReliableInputEvent.press? =
      controls.map (fun control => some (control, false)))
    (hnodup : controls.Nodup) (control : InputControl) :
    presses control events = if control ∈ controls then [false] else [] := by
  induction controls generalizing events with
  | nil =>
      rw [List.map_eq_nil_iff.mp hreleases]
      rfl
  | cons first controls ih =>
      cases events with
      | nil => cases hreleases
      | cons event events =>
          rw [List.map_cons, List.map_cons, List.cons.injEq] at hreleases
          obtain ⟨hevent, hrest⟩ := hreleases
          obtain ⟨hnew, hnodup⟩ := List.nodup_cons.mp hnodup
          rw [show event :: events = [event] ++ events from rfl, presses_append, ih hrest hnodup]
          by_cases hcontrol : control = first
          · subst hcontrol
            rw [presses_own hevent, if_neg hnew, if_pos List.mem_cons_self]
            rfl
          · rw [presses_other hevent hcontrol, List.nil_append]
            simp [hcontrol]

/-- The keys and buttons that `release_all` names. -/
def heldControls (r : ReliableInputReceiver) : List InputControl :=
  (r.pressedKeys.entries.map Prod.fst).map .key ++
    (([.left, .right, .middle, .back, .forward] : List MouseButton).filter
      (fun button => hasBits r.pressedButtons button.mask)).map .button

theorem releaseAll_press? (r : ReliableInputReceiver) :
    r.releaseAll.2.map ReliableInputEvent.press? =
      r.heldControls.map (fun control => some (control, false)) := by
  have hbuttons : ∀ buttons : List MouseButton,
      (buttons.filterMap (fun button =>
        if hasBits r.pressedButtons button.mask then
          some (ReliableInputEvent.mouseButton button false 0 0 0)
        else none)).map ReliableInputEvent.press? =
      ((buttons.filter (fun button => hasBits r.pressedButtons button.mask)).map
        InputControl.button).map (fun control => some (control, false)) := by
    intro buttons
    induction buttons with
    | nil => rfl
    | cons button buttons ih =>
        cases hheld : hasBits r.pressedButtons button.mask with
        | true => simp [hheld, ih, ReliableInputEvent.press?]
        | false => simp [hheld, ih]
  simp only [releaseAll, heldControls, List.map_append]
  rw [hbuttons]
  simp only [List.map_map]
  rfl

theorem heldControls_nodup (r : ReliableInputReceiver) : r.heldControls.Nodup := by
  refine List.nodup_append.mpr ⟨?_, ?_, ?_⟩
  · exact r.pressedKeys.keys_nodup.map (fun _ _ h => InputControl.key.inj h)
  · refine List.Nodup.map (fun _ _ h => InputControl.button.inj h) (List.Nodup.filter _ ?_)
    decide
  · intro a ha b hb hab
    obtain ⟨keyCode, _, rfl⟩ := List.mem_map.mp ha
    obtain ⟨button, _, rfl⟩ := List.mem_map.mp hb
    cases hab

theorem mem_heldControls_iff {r : ReliableInputReceiver} {control : InputControl} :
    control ∈ r.heldControls ↔ r.holds control = true := by
  cases control with
  | key keyCode =>
      simp only [heldControls, holds, List.mem_append, List.mem_map, InputControl.key.injEq,
        exists_eq_right, reduceCtorEq, and_false, exists_false, or_false, Prod.exists,
        exists_and_right, OrdMap.mem_entries_iff, OrdMap.contains_iff]
  | button button =>
      have hall : button ∈ ([.left, .right, .middle, .back, .forward] : List MouseButton) := by
        cases button <;> decide
      simp only [heldControls, holds, List.mem_append, List.mem_map, InputControl.button.injEq,
        exists_eq_right, reduceCtorEq, and_false, exists_false, false_or, List.mem_filter, hall,
        true_and]

/-- One release for what is held, none for the rest. -/
theorem presses_releaseAll (r : ReliableInputReceiver) (control : InputControl) :
    presses control r.releaseAll.2 = if r.holds control then [false] else [] := by
  rw [presses_releases r.releaseAll_press? r.heldControls_nodup]
  simp only [mem_heldControls_iff]

theorem mem_releaseAll {r : ReliableInputReceiver} {event : ReliableInputEvent}
    (h : event ∈ r.releaseAll.2) :
    ∃ control, r.holds control = true ∧ event.press? = some (control, false) := by
  have hmem : event.press? ∈ r.releaseAll.2.map ReliableInputEvent.press? := List.mem_map_of_mem h
  rw [releaseAll_press?] at hmem
  obtain ⟨control, hcontrol, hevent⟩ := List.mem_map.mp hmem
  exact ⟨control, mem_heldControls_iff.mp hcontrol, hevent.symm⟩

end ReliableInputReceiver

/-! ## Runs -/

/-- A call on the receiver; a reconnection is a `release_all`. -/
inductive InputCall
  | apply (sequenceNumber : Nat) (payload : Bytes)
  | releaseAll
  deriving DecidableEq, Repr

namespace ReliableInputReceiver

/-- A call, with the events it returns. -/
def perform (r : ReliableInputReceiver) :
    InputCall → ReliableInputReceiver × List ReliableInputEvent
  | .apply sequenceNumber payload =>
      ((r.apply sequenceNumber payload).1, returned (r.apply sequenceNumber payload).2)
  | .releaseAll => r.releaseAll

/-- The state after some calls, with the events that they returned. -/
def performAll : ReliableInputReceiver → List InputCall →
    ReliableInputReceiver × List ReliableInputEvent
  | r, [] => (r, [])
  | r, call :: calls =>
      (((r.perform call).1.performAll calls).1,
        (r.perform call).2 ++ ((r.perform call).1.performAll calls).2)

/-- One call turns over what it returns an event about, and nothing else. -/
theorem perform_spec (r : ReliableInputReceiver) (call : InputCall) (control : InputControl) :
    (presses control (r.perform call).2 = [] ∧
      (r.perform call).1.holds control = r.holds control) ∨
    (presses control (r.perform call).2 = [!r.holds control] ∧
      (r.perform call).1.holds control = !r.holds control) := by
  cases call with
  | apply sequenceNumber payload => exact r.apply_spec sequenceNumber payload control
  | releaseAll =>
      have hreleases := r.presses_releaseAll control
      have hafter : r.releaseAll.1.holds control = false := holds_new control
      cases hheld : r.holds control with
      | true =>
          rw [hheld] at hreleases
          exact .inr ⟨hreleases, hafter⟩
      | false =>
          rw [hheld] at hreleases
          exact .inl ⟨hreleases, hafter⟩

/-- After the events of a run the receiver holds what its last events pressed, and
the events alternate. -/
theorem performAll_spec (r : ReliableInputReceiver) (calls : List InputCall)
    (control : InputControl) {before : List ReliableInputEvent}
    (halternate : Alternate control before) (hheld : r.holds control = heldAfter control before) :
    Alternate control (before ++ (r.performAll calls).2) ∧
      (r.performAll calls).1.holds control =
        heldAfter control (before ++ (r.performAll calls).2) := by
  induction calls generalizing r before with
  | nil =>
      rw [performAll, List.append_nil]
      exact ⟨halternate, hheld⟩
  | cons call calls ih =>
      have hnext : Alternate control (before ++ (r.perform call).2) ∧
          (r.perform call).1.holds control = heldAfter control (before ++ (r.perform call).2) := by
        rw [heldAfter_append]
        rcases r.perform_spec call control with ⟨hevents, hsame⟩ | ⟨hevents, hturn⟩
        · refine ⟨halternate.append ?_, ?_⟩
          · rw [hevents]
            exact .singleton _
          · rw [hevents, hsame, hheld]
            rfl
        · refine ⟨halternate.append ?_, ?_⟩
          · rw [hevents, hheld]
            exact List.isChain_cons_cons.mpr ⟨rfl, .singleton _⟩
          · rw [hevents, hturn]
            rfl
      rw [performAll, ← List.append_assoc]
      exact ih _ hnext.1 hnext.2

end ReliableInputReceiver

/-- Over every run of calls: the events about each key and button alternate, starting
with a press; `release_all` then returns one release for each of them whose last
event was a press and nothing else, and leaves none held; and a call that fails
leaves the receiver unchanged. -/
theorem input_state_runs (calls : List InputCall) :
    (∀ control, Alternate control (ReliableInputReceiver.new.performAll calls).2) ∧
    (∀ control, presses control (ReliableInputReceiver.new.performAll calls).1.releaseAll.2 =
      if heldAfter control (ReliableInputReceiver.new.performAll calls).2 then [false] else []) ∧
    (∀ event ∈ (ReliableInputReceiver.new.performAll calls).1.releaseAll.2,
      ∃ control, heldAfter control (ReliableInputReceiver.new.performAll calls).2 = true ∧
        event.press? = some (control, false)) ∧
    (∀ control, (ReliableInputReceiver.new.performAll calls).1.releaseAll.1.holds control = false ∧
      heldAfter control ((ReliableInputReceiver.new.performAll calls).2 ++
        (ReliableInputReceiver.new.performAll calls).1.releaseAll.2) = false) ∧
    (∀ sequenceNumber payload r' error,
      (ReliableInputReceiver.new.performAll calls).1.apply sequenceNumber payload =
        (r', .error error) →
      r' = (ReliableInputReceiver.new.performAll calls).1) := by
  have hspec : ∀ control, Alternate control (ReliableInputReceiver.new.performAll calls).2 ∧
      (ReliableInputReceiver.new.performAll calls).1.holds control =
        heldAfter control (ReliableInputReceiver.new.performAll calls).2 := by
    intro control
    have hstart : Alternate control [] := .singleton _
    exact ReliableInputReceiver.new.performAll_spec calls control hstart
      (ReliableInputReceiver.holds_new control)
  generalize ReliableInputReceiver.new.performAll calls = state at hspec
  obtain ⟨r, events⟩ := state
  refine ⟨fun control => (hspec control).1, ?_, ?_, ?_, ?_⟩
  · intro control
    rw [← (hspec control).2]
    exact r.presses_releaseAll control
  · intro event hevent
    obtain ⟨control, hheld, hpress⟩ := ReliableInputReceiver.mem_releaseAll hevent
    exact ⟨control, by rw [← (hspec control).2]; exact hheld, hpress⟩
  · intro control
    refine ⟨ReliableInputReceiver.holds_new control, ?_⟩
    rw [heldAfter_append, r.presses_releaseAll, ← (hspec control).2]
    cases r.holds control <;> rfl
  · intro sequenceNumber payload r' error h
    exact ReliableInputReceiver.apply_error h

/-- A key is pressed twice, a button once, a call fails, and the key is released. -/
def inputCalls : List InputCall :=
  [.apply 1 (encodeReliableInput (.key 65 true 0)), .apply 2 (encodeReliableInput (.key 65 true 0)),
    .apply 3 (encodeReliableInput (.mouseButton .right true 5 6 0)), .apply 3 [],
    .apply 4 (encodeReliableInput (.key 65 false 0))]

theorem input_state_runs_button_held :
    (ReliableInputReceiver.new.performAll inputCalls).2 =
      [.key 65 true 0, .mouseButton .right true 5 6 0, .key 65 false 0] ∧
    presses (.button .right) (ReliableInputReceiver.new.performAll inputCalls).1.releaseAll.2 =
      [false] ∧
    ((ReliableInputReceiver.new.performAll inputCalls).1.apply 9 []).1 =
      (ReliableInputReceiver.new.performAll inputCalls).1 := by
  have hevents : (ReliableInputReceiver.new.performAll inputCalls).2 =
      [.key 65 true 0, .mouseButton .right true 5 6 0, .key 65 false 0] := by
    decide +kernel
  obtain ⟨_, hreleases, _, _, herror⟩ := input_state_runs inputCalls
  refine ⟨hevents, ?_, ?_⟩
  · rw [hreleases, hevents]
    rfl
  · exact herror 9 [] _ (.invalidSequence 4 9) (by decide +kernel)

end HbbCommon.Transport
