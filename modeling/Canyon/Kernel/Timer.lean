import Mathlib.Order.Nat
import Canyon.Lib.Processor

/-!
# The timer is set up with interrupts on

`timer::init` turns interrupts on and measures the timer of the local APIC against the ticks of the
PIT. It locks the local APIC three times, and so does every handler before it returns, to signal the
end of the interrupt. A handler that begins while `timer::init` holds the lock never returns, and
this is all that can keep `timer::init` from its end (`timerInit_returns_iff`).

Exceptions and the log are left out: the handlers of devices do not log.
-/

namespace Canyon.Kernel

open Canyon.Lib
open Relation (ReflTransGen)

/-! ## The devices -/

/-- `TimerMode`. -/
inductive TimerMode where
  /-- `OneShot`. -/
  | oneShot
  /-- `Periodic`. -/
  | periodic
  deriving DecidableEq, Repr

/-- What `timer::init` and the handlers share. -/
structure Devices where
  /-- The interrupt flag. -/
  enabled : Bool
  /-- The interrupt of the PIT is masked in the I/O APIC. -/
  pitMasked : Bool
  /-- `pit::COUNT`. -/
  pitCount : Nat
  /-- `timer::COUNT`. -/
  timerCount : Nat
  /-- The current count of the timer of the local APIC. -/
  current : Nat
  /-- Its initial count. -/
  initial : Nat
  /-- Its mode. -/
  mode : TimerMode
  /-- Its interrupt is masked. -/
  timerMasked : Bool
  deriving DecidableEq, Repr

/-- The lock of the local APIC. -/
inductive ApicLock where
  /-- `LAPIC`. -/
  | lapic
  deriving DecidableEq, Repr

/-- `IrqVector`, as far as `device::init` enables them. -/
inductive IrqVector where
  /-- `Keyboard`. -/
  | keyboard
  /-- `PIT`. -/
  | pit
  /-- `Timer`. -/
  | timer
  deriving DecidableEq, Repr

/-- The interrupt flag and the mask of the PIT stay. -/
structure Devices.Keeps (devices after : Devices) : Prop where
  /-- The interrupt flag stays. -/
  enabled : after.enabled = devices.enabled
  /-- The mask of the PIT stays. -/
  pitMasked : after.pitMasked = devices.pitMasked

/-! ## The handlers -/

/-- Where a handler is. -/
inductive HandlerStage where
  /-- At its beginning. -/
  | begin (irq : IrqVector)
  /-- In front of the lock in `eoi`. -/
  | lock
  /-- With the lock. -/
  | signal
  /-- At its end. -/
  | finished
  deriving DecidableEq, Repr

/-- What a handler does before `eoi`. -/
def Devices.tick (devices : Devices) : IrqVector → Devices
  | .keyboard => devices
  | .pit => { devices with pitCount := devices.pitCount + 1 }
  | .timer => { devices with timerCount := devices.timerCount + 1 }

/-- `keyboard_interrupt_handler`, `pit_handler` and `timer_interrupt_handler`, with `eoi`. -/
def handlers : Routine Devices ApicLock where
  Place := HandlerStage
  wants
    | .lock => some .lapic
    | _ => none
  holds
    | .signal => [.lapic]
    | _ => []
  next devices
    | .begin irq => some (devices.tick irq, .lock)
    | .lock => some (devices, .signal)
    | .signal => some (devices, .finished)
    | .finished => none

/-- The interrupts that may come, and the timer, which counts down. -/
def surroundings : Surroundings Devices handlers where
  arrives devices stage := devices.enabled = true ∧ ∃ irq, stage = HandlerStage.begin irq ∧
    (irq = .pit → devices.pitMasked = false) ∧ (irq = .timer → devices.timerMasked = false)
  finished stage := stage = HandlerStage.finished
  released := by
    rintro stage rfl
    rfl
  device devices after := ∃ current, after = { devices with current } ∧
    match devices.mode with
    | .oneShot => current ≤ devices.current
    | .periodic => current ≤ devices.initial

/-! ## What goes on beside the main routine -/

/-- What handlers and devices can do to what is shared. -/
structure Devices.Drift (devices after : Devices) : Prop extends devices.Keeps after where
  /-- The mask of the timer stays. -/
  timerMasked : after.timerMasked = devices.timerMasked
  /-- The mode of the timer stays. -/
  mode : after.mode = devices.mode
  /-- The initial count of the timer stays. -/
  initial : after.initial = devices.initial
  /-- Ticks are counted. -/
  pitCount : devices.pitCount ≤ after.pitCount
  /-- A timer that is not periodic counts down. -/
  current : devices.mode = .oneShot → after.current ≤ devices.current

/-- Nothing has happened. -/
theorem Devices.Drift.refl (devices : Devices) : devices.Drift devices :=
  ⟨⟨rfl, rfl⟩, rfl, rfl, rfl, le_rfl, fun _ => le_rfl⟩

/-- A handler counts a tick. -/
theorem Devices.drift_tick (devices : Devices) (irq : IrqVector) :
    devices.Drift (devices.tick irq) := by
  cases irq with
  | keyboard => exact .refl devices
  | pit => exact ⟨⟨rfl, rfl⟩, rfl, rfl, rfl, Nat.le_succ _, fun _ => le_rfl⟩
  | timer => exact ⟨⟨rfl, rfl⟩, rfl, rfl, rfl, le_rfl, fun _ => le_rfl⟩

/-- What a step of a handler does. -/
theorem drift_of_handler {devices after : Devices} {stage next : HandlerStage}
    (moved : handlers.next devices stage = some (after, next)) : devices.Drift after := by
  cases stage with
  | begin irq =>
    cases moved
    exact devices.drift_tick irq
  | lock | signal =>
    cases moved
    exact .refl _
  | finished => cases moved

/-- What a step of the timer does. -/
theorem drift_of_device {devices after : Devices} (moved : surroundings.device devices after) :
    devices.Drift after := by
  obtain ⟨current, rfl, counted⟩ := moved
  refine ⟨⟨rfl, rfl⟩, rfl, rfl, rfl, le_rfl, fun oneShot => ?_⟩
  rwa [oneShot] at counted

/-- The handler has not taken the lock yet. -/
def HandlerStage.BeforeLock : HandlerStage → Prop
  | .begin _ | .lock => True
  | .signal | .finished => False

/-- Every handler takes the lock before it returns. -/
theorem handlers_need_lock : Processor.Needs surroundings .lapic HandlerStage.BeforeLock where
  unfinished := by
    rintro stage needs rfl
    exact needs
  keeps := by
    intro devices stage after next needs moved
    cases stage with
    | begin irq =>
      cases moved
      exact .inr trivial
    | lock => exact .inl rfl
    | signal | finished => exact needs.elim

/-- The PIT and the timer are as `timer::init` needs them for its measurement. -/
structure Devices.Measuring (devices : Devices) : Prop where
  /-- The PIT interrupts. -/
  pitOn : devices.pitMasked = false
  /-- The timer counts down once. -/
  oneShot : devices.mode = .oneShot

/-- The timer and the PIT are measured with interrupts on. -/
structure Devices.Ticking (devices : Devices) : Prop extends devices.Measuring where
  /-- Interrupts are on. -/
  enabled : devices.enabled = true

/-- The measurement is over. -/
structure Devices.Measured (devices : Devices) : Prop where
  /-- Interrupts are on. -/
  enabled : devices.enabled = true
  /-- The PIT is off. -/
  pitOff : devices.pitMasked = true

section Beside

variable {devices after : Devices}

/-- The devices stay ready for the measurement. -/
theorem Devices.Measuring.drift (measuring : devices.Measuring) (drift : devices.Drift after) :
    after.Measuring :=
  ⟨drift.pitMasked.trans measuring.pitOn, drift.mode.trans measuring.oneShot⟩

/-- Interrupts stay on during the measurement. -/
theorem Devices.Ticking.drift (ticking : devices.Ticking) (drift : devices.Drift after) :
    after.Ticking :=
  ⟨ticking.toMeasuring.drift drift, drift.enabled.trans ticking.enabled⟩

/-- Interrupts stay on after the measurement, and the PIT off. -/
theorem Devices.Measured.keeps (measured : devices.Measured) (keeps : devices.Keeps after) :
    after.Measured :=
  ⟨keeps.enabled.trans measured.enabled, keeps.pitMasked.trans measured.pitOff⟩

end Beside

/-! ## The main routine -/

/-- Where `timer::init` is, with its variables. -/
inductive Calibration where
  /-- Before `pit::count()`. -/
  | begin
  /-- Before `interrupts::enable()`. -/
  | enable (pitStart : Nat)
  /-- In the first loop. -/
  | awaitStart (pitStart : Nat)
  /-- In front of the lock. -/
  | lockStart (pitStart : Nat)
  /-- Before `timer_current()`. -/
  | readStart (pitStart : Nat)
  /-- Before the guard is dropped. -/
  | unlockStart (pitStart lapicStart : Nat)
  /-- In the second loop. -/
  | awaitEnd (pitStart lapicStart : Nat)
  /-- In front of the lock. -/
  | lockEnd (lapicStart : Nat)
  /-- Before `timer_current()`. -/
  | readEnd (lapicStart : Nat)
  /-- Before the guard is dropped. -/
  | unlockEnd (lapicStart lapicEnd : Nat)
  /-- Before `pit::disable`. -/
  | disablePit (lapicStart lapicEnd : Nat)
  /-- Before the subtraction. -/
  | subtract (lapicStart lapicEnd : Nat)
  /-- `set_apic_timer`, in front of the lock. -/
  | lockTimer (divisor : Nat)
  /-- Before `disable_timer`. -/
  | disableTimer (divisor : Nat)
  /-- Before `set_timer_mode`. -/
  | setMode (divisor : Nat)
  /-- Before `set_timer_initial`. -/
  | setInitial (divisor : Nat)
  /-- Before `enable_timer`. -/
  | enableTimer (divisor : Nat)
  /-- Before the guard is dropped. -/
  | unlockTimer (divisor : Nat)
  /-- `timer::init` has returned. -/
  | done (divisor : Nat)
  /-- The subtraction has panicked. -/
  | panicked
  deriving DecidableEq, Repr

/-- What is known at a place of `timer::init` that began at `start` ticks. -/
def Calibration.Sound (start : Nat) (devices : Devices) : Calibration → Prop
  | .begin => devices.Measuring ∧ start ≤ devices.pitCount
  | .enable pitStart => devices.Measuring ∧ start ≤ pitStart
  | .awaitStart pitStart => devices.Ticking ∧ start ≤ pitStart
  | .lockStart pitStart | .readStart pitStart =>
    devices.Ticking ∧ start ≤ pitStart ∧ start + 2 ≤ devices.pitCount
  | .unlockStart pitStart lapicStart | .awaitEnd pitStart lapicStart =>
    devices.Ticking ∧ start ≤ pitStart ∧ devices.current ≤ lapicStart
  | .lockEnd lapicStart | .readEnd lapicStart =>
    devices.Ticking ∧ devices.current ≤ lapicStart ∧ start + 102 ≤ devices.pitCount
  | .unlockEnd lapicStart lapicEnd | .disablePit lapicStart lapicEnd =>
    devices.Ticking ∧ lapicEnd ≤ lapicStart
  | .subtract lapicStart lapicEnd => devices.Measured ∧ lapicEnd ≤ lapicStart
  | .lockTimer _ | .disableTimer _ | .setMode _ => devices.Measured
  | .setInitial _ => devices.Measured ∧ devices.mode = .periodic
  | .enableTimer divisor =>
    devices.Measured ∧ devices.mode = .periodic ∧ devices.initial = divisor
  | .unlockTimer divisor | .done divisor =>
    devices.Measured ∧ devices.mode = .periodic ∧ devices.initial = divisor ∧
      devices.timerMasked = false
  | .panicked => False

/-- Handlers and devices keep what is known. -/
theorem Calibration.Sound.drift {start : Nat} {devices after : Devices} {place : Calibration}
    (sound : place.Sound start devices) (drift : devices.Drift after) :
    place.Sound start after := by
  have counted := drift.pitCount
  cases place with
  | begin => exact ⟨sound.1.drift drift, sound.2.trans counted⟩
  | enable => exact ⟨sound.1.drift drift, sound.2⟩
  | awaitStart => exact ⟨sound.1.drift drift, sound.2⟩
  | lockStart | readStart =>
    exact ⟨sound.1.drift drift, sound.2.1, sound.2.2.trans counted⟩
  | unlockStart | awaitEnd =>
    exact ⟨sound.1.drift drift, sound.2.1, (drift.current sound.1.oneShot).trans sound.2.2⟩
  | lockEnd | readEnd =>
    exact ⟨sound.1.drift drift, (drift.current sound.1.oneShot).trans sound.2.1,
      sound.2.2.trans counted⟩
  | unlockEnd | disablePit => exact ⟨sound.1.drift drift, sound.2⟩
  | subtract => exact ⟨sound.1.keeps drift.toKeeps, sound.2⟩
  | lockTimer | disableTimer | setMode => exact Devices.Measured.keeps sound drift.toKeeps
  | setInitial => exact ⟨sound.1.keeps drift.toKeeps, drift.mode.trans sound.2⟩
  | enableTimer =>
    exact ⟨sound.1.keeps drift.toKeeps, drift.mode.trans sound.2.1, drift.initial.trans sound.2.2⟩
  | unlockTimer | done =>
    exact ⟨sound.1.keeps drift.toKeeps, drift.mode.trans sound.2.1, drift.initial.trans sound.2.2.1,
      drift.timerMasked.trans sound.2.2.2⟩
  | panicked => exact sound

/-- The crates that program the interrupt controllers: their calls, and what these leave. -/
class Apic where
  /-- `interrupts::enable`. -/
  enable : Devices → Devices
  /-- `IoApic::disable_irq`, for the PIT. -/
  disablePit : Devices → Devices
  /-- `LocalApic::timer_current`. -/
  timerCurrent : Devices → Nat
  /-- `LocalApic::disable_timer`. -/
  disableTimer : Devices → Devices
  /-- `LocalApic::set_timer_mode`. -/
  setTimerMode : TimerMode → Devices → Devices
  /-- `LocalApic::set_timer_initial`. -/
  setTimerInitial : Nat → Devices → Devices
  /-- `LocalApic::enable_timer`. -/
  enableTimer : Devices → Devices
  /-- Interrupts are turned on, and the PIT and the timer stay as they are. -/
  enables : ∀ devices, (enable devices).enabled = true ∧
    (enable devices).pitMasked = devices.pitMasked ∧ (enable devices).mode = devices.mode
  /-- The PIT is masked. -/
  masksPit : ∀ devices, (disablePit devices).pitMasked = true ∧
    (disablePit devices).enabled = devices.enabled
  /-- The current count is read. -/
  reads : ∀ devices, timerCurrent devices = devices.current
  /-- The timer is stopped. -/
  stops : ∀ devices, Devices.Keeps devices (disableTimer devices)
  /-- The mode is set. -/
  setsMode : ∀ mode devices, Devices.Keeps devices (setTimerMode mode devices) ∧
    (setTimerMode mode devices).mode = mode
  /-- The initial count is set, and the mode stays. -/
  setsInitial : ∀ count devices, Devices.Keeps devices (setTimerInitial count devices) ∧
    (setTimerInitial count devices).mode = devices.mode ∧
    (setTimerInitial count devices).initial = count
  /-- The timer is unmasked, and its mode and its initial count stay. -/
  unmasks : ∀ devices, Devices.Keeps devices (enableTimer devices) ∧
    (enableTimer devices).mode = devices.mode ∧ (enableTimer devices).initial = devices.initial ∧
    (enableTimer devices).timerMasked = false

section Calls

variable [Apic]

/-- `timer::init` and `set_apic_timer`. -/
def timerInit : Routine Devices ApicLock where
  Place := Calibration
  wants
    | .lockStart _ | .lockEnd _ | .lockTimer _ => some .lapic
    | _ => none
  holds
    | .readStart _ | .unlockStart _ _ | .readEnd _ | .unlockEnd _ _ => [.lapic]
    | .disableTimer _ | .setMode _ | .setInitial _ | .enableTimer _ | .unlockTimer _ => [.lapic]
    | _ => []
  next devices
    | .begin => some (devices, .enable devices.pitCount)
    | .enable pitStart => some (Apic.enable devices, .awaitStart pitStart)
    | .awaitStart pitStart =>
      if devices.pitCount < pitStart + 2 then some (devices, .awaitStart pitStart)
      else some (devices, .lockStart pitStart)
    | .lockStart pitStart => some (devices, .readStart pitStart)
    | .readStart pitStart => some (devices, .unlockStart pitStart (Apic.timerCurrent devices))
    | .unlockStart pitStart lapicStart => some (devices, .awaitEnd pitStart lapicStart)
    | .awaitEnd pitStart lapicStart =>
      if devices.pitCount < pitStart + 102 then some (devices, .awaitEnd pitStart lapicStart)
      else some (devices, .lockEnd lapicStart)
    | .lockEnd lapicStart => some (devices, .readEnd lapicStart)
    | .readEnd lapicStart => some (devices, .unlockEnd lapicStart (Apic.timerCurrent devices))
    | .unlockEnd lapicStart lapicEnd => some (devices, .disablePit lapicStart lapicEnd)
    | .disablePit lapicStart lapicEnd =>
      some (Apic.disablePit devices, .subtract lapicStart lapicEnd)
    | .subtract lapicStart lapicEnd =>
      if lapicEnd ≤ lapicStart then some (devices, .lockTimer (lapicStart - lapicEnd))
      else some (devices, .panicked)
    | .lockTimer divisor => some (devices, .disableTimer divisor)
    | .disableTimer divisor => some (Apic.disableTimer devices, .setMode divisor)
    | .setMode divisor => some (Apic.setTimerMode .periodic devices, .setInitial divisor)
    | .setInitial divisor => some (Apic.setTimerInitial divisor devices, .enableTimer divisor)
    | .enableTimer divisor => some (Apic.enableTimer devices, .unlockTimer divisor)
    | .unlockTimer divisor => some (devices, .done divisor)
    | .done _ => none
    | .panicked => none

/-- The kernel in `timer::init`. -/
abbrev Calibrating := Processor timerInit handlers

/-- Some steps of the kernel. -/
abbrev Calibrating.Reaches (machine later : Calibrating) : Prop :=
  ReflTransGen (Processor.Step surroundings) machine later

/-- A step is one of `timer::init`, or leaves it where it is. -/
theorem Calibrating.step_cases {machine later : Calibrating}
    (stepped : Processor.Step surroundings machine later) :
    timerInit.next machine.shared machine.running = some (later.shared, later.running) ∨
      later.running = machine.running ∧ machine.shared.Drift later.shared :=
  stepped.main_or_aside Devices.Drift.refl (fun _ _ _ _ => drift_of_handler)
    fun _ _ => drift_of_device

/-! ## What holds at each place -/

section Sound

variable {start : Nat} {devices after : Devices} {place next : Calibration}

/-- A step of `timer::init` leads to what is known at its next place. -/
theorem Calibration.Sound.main (sound : place.Sound start devices)
    (moved : timerInit.next devices place = some (after, next)) : next.Sound start after := by
  cases place with
  | begin | lockStart | unlockStart | lockEnd | unlockEnd | lockTimer | unlockTimer =>
    cases moved
    exact sound
  | enable pitStart =>
    cases moved
    obtain ⟨enabled, pit, mode⟩ := Apic.enables devices
    exact ⟨⟨⟨pit.trans sound.1.1, mode.trans sound.1.2⟩, enabled⟩, sound.2⟩
  | awaitStart pitStart =>
    simp only [timerInit] at moved
    split at moved
    · cases moved
      exact sound
    · cases moved
      have later := sound.2
      exact ⟨sound.1, later, by omega⟩
  | readStart pitStart =>
    cases moved
    exact ⟨sound.1, sound.2.1, (Apic.reads devices).ge⟩
  | awaitEnd pitStart lapicStart =>
    simp only [timerInit] at moved
    split at moved
    · cases moved
      exact sound
    · cases moved
      have later := sound.2.1
      exact ⟨sound.1, sound.2.2, by omega⟩
  | readEnd lapicStart =>
    cases moved
    exact ⟨sound.1, (Apic.reads devices).le.trans sound.2.1⟩
  | disablePit lapicStart lapicEnd =>
    cases moved
    obtain ⟨masked, enabled⟩ := Apic.masksPit devices
    exact ⟨⟨enabled.trans sound.1.enabled, masked⟩, sound.2⟩
  | subtract lapicStart lapicEnd =>
    -- the timer only counts down, so the difference exists
    simp only [timerInit, if_pos sound.2] at moved
    cases moved
    exact sound.1
  | disableTimer divisor =>
    cases moved
    exact Devices.Measured.keeps sound (Apic.stops devices)
  | setMode divisor =>
    cases moved
    obtain ⟨keeps, mode⟩ := Apic.setsMode .periodic devices
    exact ⟨Devices.Measured.keeps sound keeps, mode⟩
  | setInitial divisor =>
    cases moved
    obtain ⟨keeps, mode, initial⟩ := Apic.setsInitial divisor devices
    exact ⟨sound.1.keeps keeps, mode.trans sound.2, initial⟩
  | enableTimer divisor =>
    cases moved
    obtain ⟨keeps, mode, initial, unmasked⟩ := Apic.unmasks devices
    exact ⟨sound.1.keeps keeps, mode.trans sound.2.1, initial.trans sound.2.2, unmasked⟩
  | done | panicked => cases moved

/-- What is known at the places holds all along a run. -/
theorem Calibrating.sound_of_run {machine later : Calibrating}
    (run : machine.Reaches later)
    (sound : Calibration.Sound start machine.shared machine.running) :
    Calibration.Sound start later.shared later.running := by
  induction run with
  | refl => exact sound
  | tail _ stepped ih =>
    rcases step_cases stepped with moved | ⟨stays, drift⟩
    · exact Calibration.Sound.main ih moved
    · rw [stays]
      exact Calibration.Sound.drift ih drift

/-- What is known at the places holds since the beginning. -/
theorem Calibrating.sound_since_begin {machine : Calibrating} (measuring : devices.Measuring)
    (run : Calibrating.Reaches ⟨devices, .begin, none⟩ machine) :
    Calibration.Sound devices.pitCount machine.shared machine.running := by
  have known : Calibration.begin.Sound devices.pitCount devices := ⟨measuring, le_rfl⟩
  exact sound_of_run run known

end Sound

/-! ## Whether it returns -/

/-- `timer::init` has returned. -/
def Calibration.Returned : Calibration → Prop
  | .done _ => True
  | _ => False

namespace Calibrating

/-- `timer::init` can still return. -/
def MayReturn (machine : Calibrating) : Prop :=
  machine.MayReach surroundings Calibration.Returned

/-- A handler has begun while `timer::init` holds the lock. -/
def Stuck (machine : Calibrating) : Prop :=
  machine.Caught ApicLock.lapic HandlerStage.BeforeLock

/-- A machine that is stuck does not return. -/
theorem Stuck.not_mayReturn {machine : Calibrating} (stuck : machine.Stuck) :
    ¬machine.MayReturn := by
  refine stuck.not_mayReach handlers_need_lock fun place returned => ?_
  cases place with
  | done divisor => exact List.not_mem_nil
  | _ => exact returned.elim

end Calibrating

/-- What a handler at this stage still does to the devices. -/
def HandlerStage.effect (devices : Devices) : HandlerStage → Devices
  | .begin irq => devices.tick irq
  | _ => devices

section Progress

variable {start : Nat} {devices : Devices} {place : Calibration} {stage : HandlerStage}

/-- A handler that is not kept from the lock returns. -/
theorem handler_returns (free : stage.BeforeLock → ApicLock.lapic ∉ timerInit.holds place) :
    Calibrating.Reaches ⟨devices, place, some stage⟩ ⟨stage.effect devices, place, none⟩ := by
  have leaves (now : Devices) :
      Calibrating.Reaches ⟨now, place, some .finished⟩ ⟨now, place, none⟩ :=
    .single (.leave rfl)
  have signals (now : Devices) :
      Calibrating.Reaches ⟨now, place, some .signal⟩ ⟨now, place, none⟩ :=
    .head (.handler nofun rfl) (leaves now)
  have locks (isFree : ApicLock.lapic ∉ timerInit.holds place) (now : Devices) :
      Calibrating.Reaches ⟨now, place, some .lock⟩ ⟨now, place, none⟩ := by
    refine .head (.handler (fun lock wanted => ?_) rfl) (signals now)
    rwa [← Option.some.inj wanted]
  cases stage with
  | begin irq => exact .head (.handler nofun rfl) (locks (free trivial) _)
  | lock => exact locks (free trivial) devices
  | signal => exact signals devices
  | finished => exact leaves devices

/-- The PIT can tick as often as it takes while the lock is free. -/
theorem pit_ticks (ticking : devices.Ticking) (free : ApicLock.lapic ∉ timerInit.holds place)
    (ticks : Nat) :
    Calibrating.Reaches ⟨devices, place, none⟩
      ⟨{ devices with pitCount := devices.pitCount + ticks }, place, none⟩ := by
  induction ticks with
  | zero => exact .refl
  | succ ticks ih =>
    have arrives : surroundings.arrives { devices with pitCount := devices.pitCount + ticks }
        (HandlerStage.begin .pit) :=
      ⟨ticking.enabled, .pit, rfl, fun _ => ticking.pitOn, nofun⟩
    exact ih.trans (.head (.interrupt arrives) (handler_returns fun _ => free))

/-- How far `timer::init` is from its end. -/
def Calibration.rank : Calibration → Nat
  | .begin => 18
  | .enable _ => 17
  | .awaitStart _ => 16
  | .lockStart _ => 15
  | .readStart _ => 14
  | .unlockStart _ _ => 13
  | .awaitEnd _ _ => 12
  | .lockEnd _ => 11
  | .readEnd _ => 10
  | .unlockEnd _ _ => 9
  | .disablePit _ _ => 8
  | .subtract _ _ => 7
  | .lockTimer _ => 6
  | .disableTimer _ => 5
  | .setMode _ => 4
  | .setInitial _ => 3
  | .enableTimer _ => 2
  | .unlockTimer _ => 1
  | .done _ | .panicked => 0

/-- A loop that waits for the PIT ends when there have been enough ticks. -/
theorem wait_ends {next : Calibration} {ticks : Nat} (ticking : devices.Ticking)
    (leaves : ∀ now : Devices, ticks ≤ now.pitCount →
      timerInit.next now place = some (now, next))
    (free : ApicLock.lapic ∉ timerInit.holds place) :
    ∃ after, Calibrating.Reaches ⟨devices, place, none⟩ ⟨after, next, none⟩ :=
  ⟨_, (pit_ticks ticking free ticks).tail (.main (leaves _ (Nat.le_add_left ..)))⟩

/-- `timer::init` can always come nearer to its end. -/
theorem Calibration.Sound.advances (sound : place.Sound start devices)
    (unfinished : ¬place.Returned) :
    ∃ after next, Calibrating.Reaches ⟨devices, place, none⟩ ⟨after, next, none⟩ ∧
      next.rank < place.rank := by
  cases place with
  | awaitStart pitStart =>
    have leaves (now : Devices) (enough : pitStart + 2 ≤ now.pitCount) :
        timerInit.next now (.awaitStart pitStart) = some (now, .lockStart pitStart) :=
      if_neg enough.not_gt
    obtain ⟨after, run⟩ := wait_ends sound.1 leaves List.not_mem_nil
    exact ⟨after, _, run, Nat.lt_succ_self _⟩
  | awaitEnd pitStart lapicStart =>
    have leaves (now : Devices) (enough : pitStart + 102 ≤ now.pitCount) :
        timerInit.next now (.awaitEnd pitStart lapicStart) = some (now, .lockEnd lapicStart) :=
      if_neg enough.not_gt
    obtain ⟨after, run⟩ := wait_ends sound.1 leaves List.not_mem_nil
    exact ⟨after, _, run, Nat.lt_succ_self _⟩
  | subtract lapicStart lapicEnd =>
    exact ⟨_, _, .single (.main (if_pos sound.2)), Nat.lt_succ_self _⟩
  | done divisor => exact absurd trivial unfinished
  | panicked => exact sound.elim
  | _ => exact ⟨_, _, .single (.main rfl), Nat.lt_succ_self _⟩

/-- `timer::init` can return if there is no handler. -/
theorem Calibration.Sound.mayReturn (sound : place.Sound start devices) :
    Calibrating.MayReturn ⟨devices, place, none⟩ := by
  -- no interrupt has to come but those of the PIT that a loop waits for
  induction isRank : place.rank using Nat.strong_induction_on generalizing devices place with
  | _ rank ih =>
    by_cases returned : place.Returned
    · exact ⟨_, .refl, returned⟩
    · obtain ⟨after, next, run, lower⟩ := sound.advances returned
      have soundNext := Calibrating.sound_of_run run sound
      exact (ih next.rank (isRank ▸ lower) soundNext rfl).of_run run

end Progress

/-- Whatever has happened since `timer::init` began, it can still return if and only if no handler
has begun while it holds the lock of the local APIC. -/
theorem timerInit_returns_iff (devices : Devices) (measuring : devices.Measuring)
    (machine : Calibrating) (run : Calibrating.Reaches ⟨devices, .begin, none⟩ machine) :
    machine.MayReturn ↔ ¬machine.Stuck := by
  constructor
  · intro returns stuck
    exact stuck.not_mayReturn returns
  · intro free
    have sound := Calibrating.sound_since_begin measuring run
    obtain ⟨now, place, interrupted⟩ := machine
    cases interrupted with
    | none => exact sound.mayReturn
    | some stage =>
      -- the handler is past the lock, or the lock is free: it returns first
      have served : Calibrating.Reaches ⟨now, place, some stage⟩ ⟨stage.effect now, place, none⟩ :=
        handler_returns fun before held => free ⟨stage, rfl, before, held⟩
      have soundAfter := Calibrating.sound_of_run served sound
      exact Processor.MayReach.of_run soundAfter.mayReturn served

end Calls

/-- The crates as they set the registers of the devices. -/
instance registerApic : Apic where
  enable := fun devices => { devices with enabled := true }
  disablePit := fun devices => { devices with pitMasked := true }
  timerCurrent := Devices.current
  disableTimer := fun devices => { devices with timerMasked := true }
  setTimerMode := fun mode devices => { devices with mode }
  setTimerInitial := fun count devices => { devices with initial := count, current := count }
  enableTimer := fun devices => { devices with timerMasked := false }
  enables := fun _ => ⟨rfl, rfl, rfl⟩
  masksPit := fun _ => ⟨rfl, rfl⟩
  reads := fun _ => rfl
  stops := fun _ => ⟨rfl, rfl⟩
  setsMode := fun _ _ => ⟨⟨rfl, rfl⟩, rfl⟩
  setsInitial := fun _ _ => ⟨⟨rfl, rfl⟩, rfl, rfl⟩
  unmasks := fun _ => ⟨⟨rfl, rfl⟩, rfl, rfl, rfl⟩

/-- The devices as `apic::init` and `pit::enable` leave them. -/
def readyDevices : Devices where
  enabled := false
  pitMasked := false
  pitCount := 0
  timerCount := 0
  current := 0xffffffff
  initial := 0xffffffff
  mode := .oneShot
  timerMasked := false

/-- The devices when the timer is read for the first time, after two ticks. -/
def tickedDevices : Devices :=
  { readyDevices with enabled := true, pitCount := 0 + 2 }

/-- `timer::init` comes to its first reading after two ticks. -/
theorem readyDevices_reaches_read :
    Calibrating.Reaches ⟨readyDevices, .begin, none⟩ ⟨tickedDevices, .readStart 0, none⟩ := by
  let ticking : Devices := { readyDevices with enabled := true }
  have waits : Calibrating.Reaches ⟨readyDevices, .begin, none⟩ ⟨ticking, .awaitStart 0, none⟩ :=
    .head (.main rfl) (.single (.main rfl))
  have ticks : Calibrating.Reaches ⟨ticking, .awaitStart 0, none⟩
      ⟨tickedDevices, .awaitStart 0, none⟩ :=
    pit_ticks ⟨⟨rfl, rfl⟩, rfl⟩ List.not_mem_nil 2
  exact (waits.trans ticks).trans (.head (.main rfl) (.single (.main rfl)))

/-- A key that is pressed when the timer is read for the first time stops the kernel. -/
theorem timerInit_returns_iff_key :
    Calibrating.MayReturn ⟨readyDevices, .begin, none⟩ ∧
      ∃ machine, Calibrating.Reaches ⟨readyDevices, .begin, none⟩ machine ∧
        machine.Stuck ∧ ¬machine.MayReturn := by
  have ready : readyDevices.Measuring := ⟨rfl, rfl⟩
  constructor
  · exact (timerInit_returns_iff readyDevices ready _ .refl).mpr nofun
  · have key : surroundings.arrives tickedDevices (HandlerStage.begin .keyboard) :=
      ⟨rfl, .keyboard, rfl, nofun, nofun⟩
    have run := readyDevices_reaches_read.tail (.interrupt key)
    have stuck : Calibrating.Stuck ⟨tickedDevices, .readStart 0, some (.begin .keyboard)⟩ :=
      ⟨_, rfl, trivial, List.mem_singleton_self _⟩
    exact ⟨_, run, stuck, fun returns =>
      (timerInit_returns_iff readyDevices ready _ run).mp returns stuck⟩

/-! ## What it leaves -/

section Readings

variable [Apic]

namespace Calibrating

/-- The timer has been read once since the beginning, after two ticks. -/
def ReadOnce (begun machine : Calibrating) (lapicStart : Nat) : Prop :=
  ∃ first : Calibrating, begun.Reaches first ∧ first.Reaches machine ∧
    first.shared.current = lapicStart ∧ begun.shared.pitCount + 2 ≤ first.shared.pitCount

/-- The timer has been read twice since the beginning, after two ticks and after a hundred more. -/
def ReadTwice (begun machine : Calibrating) (lapicStart lapicEnd : Nat) : Prop :=
  ∃ second : Calibrating, begun.ReadOnce second lapicStart ∧ second.Reaches machine ∧
    second.shared.current = lapicEnd ∧ begun.shared.pitCount + 102 ≤ second.shared.pitCount

/-- The readings that `timer::init` has made at this place. -/
def Readings (begun machine : Calibrating) : Calibration → Prop
  | .begin | .enable _ | .awaitStart _ | .lockStart _ | .readStart _ | .panicked => True
  | .unlockStart _ lapicStart | .awaitEnd _ lapicStart | .lockEnd lapicStart
  | .readEnd lapicStart => begun.ReadOnce machine lapicStart
  | .unlockEnd lapicStart lapicEnd | .disablePit lapicStart lapicEnd
  | .subtract lapicStart lapicEnd => begun.ReadTwice machine lapicStart lapicEnd
  | .lockTimer divisor | .disableTimer divisor | .setMode divisor | .setInitial divisor
  | .enableTimer divisor | .unlockTimer divisor | .done divisor =>
    ∃ lapicStart lapicEnd, begun.ReadTwice machine lapicStart lapicEnd ∧
      divisor + lapicEnd = lapicStart

variable {begun machine later : Calibrating}

/-- A reading is not undone. -/
theorem ReadOnce.run {lapicStart : Nat} (once : begun.ReadOnce machine lapicStart)
    (run : machine.Reaches later) : begun.ReadOnce later lapicStart := by
  obtain ⟨first, before, since, reading⟩ := once
  exact ⟨first, before, since.trans run, reading⟩

/-- Two readings are not undone. -/
theorem ReadTwice.run {lapicStart lapicEnd : Nat}
    (twice : begun.ReadTwice machine lapicStart lapicEnd) (run : machine.Reaches later) :
    begun.ReadTwice later lapicStart lapicEnd := by
  obtain ⟨second, before, since, reading⟩ := twice
  exact ⟨second, before, since.trans run, reading⟩

/-- The readings that are made stay made. -/
theorem Readings.run {place : Calibration} (readings : begun.Readings machine place)
    (run : machine.Reaches later) : begun.Readings later place := by
  cases place with
  | begin | enable | awaitStart | lockStart | readStart | panicked => trivial
  | unlockStart | awaitEnd | lockEnd | readEnd => exact ReadOnce.run readings run
  | unlockEnd | disablePit | subtract => exact ReadTwice.run readings run
  | lockTimer | disableTimer | setMode | setInitial | enableTimer | unlockTimer | done =>
    obtain ⟨lapicStart, lapicEnd, twice, difference⟩ := readings
    exact ⟨lapicStart, lapicEnd, twice.run run, difference⟩

/-- A step of `timer::init` makes the readings that its next place names. -/
theorem Readings.main {place next : Calibration} {after : Devices}
    (readings : begun.Readings machine place) (reached : begun.Reaches machine)
    (sound : place.Sound begun.shared.pitCount machine.shared)
    (moved : timerInit.next machine.shared place = some (after, next)) :
    begun.Readings machine next := by
  cases place with
  | readStart pitStart =>
    cases moved
    exact ⟨machine, reached, .refl, (Apic.reads _).symm, sound.2.2⟩
  | readEnd lapicStart =>
    cases moved
    exact ⟨machine, readings, .refl, (Apic.reads _).symm, sound.2.2⟩
  | subtract lapicStart lapicEnd =>
    simp only [timerInit, if_pos sound.2] at moved
    cases moved
    exact ⟨lapicStart, lapicEnd, readings, Nat.sub_add_cancel sound.2⟩
  | awaitStart pitStart =>
    simp only [timerInit] at moved
    split at moved <;> cases moved <;> trivial
  | awaitEnd pitStart lapicStart =>
    simp only [timerInit] at moved
    split at moved <;> cases moved <;> exact readings
  | done | panicked => cases moved
  | _ =>
    cases moved
    exact readings

/-- The readings that a place names have been made. -/
theorem readings_of_run {devices : Devices} (measuring : devices.Measuring)
    (run : Reaches ⟨devices, .begin, none⟩ machine) :
    Readings ⟨devices, .begin, none⟩ machine machine.running := by
  induction run with
  | refl => trivial
  | tail run stepped ih =>
    have sound := sound_since_begin measuring run
    rcases step_cases stepped with moved | ⟨stays, -⟩
    · exact (ih.main run sound moved).run (.single stepped)
    · rw [stays]
      exact ih.run (.single stepped)

end Calibrating

/-- `timer::init` does not panic. When it has returned, interrupts are on, the PIT is off and the
timer is on and periodic, and its initial count is what it counted between two readings: one after
two ticks of the PIT and one after a hundred and two. -/
theorem timerInit_returned (devices : Devices) (measuring : devices.Measuring)
    (machine : Calibrating) (run : Calibrating.Reaches ⟨devices, .begin, none⟩ machine) :
    machine.running ≠ Calibration.panicked ∧
      ∀ divisor, machine.running = Calibration.done divisor →
        machine.shared.Measured ∧ machine.shared.mode = .periodic ∧
        machine.shared.timerMasked = false ∧ machine.shared.initial = divisor ∧
        ∃ first second : Calibrating,
          Calibrating.Reaches ⟨devices, .begin, none⟩ first ∧ first.Reaches second ∧
          second.Reaches machine ∧
          divisor + second.shared.current = first.shared.current ∧
          devices.pitCount + 2 ≤ first.shared.pitCount ∧
          devices.pitCount + 102 ≤ second.shared.pitCount := by
  have sound := Calibrating.sound_since_begin measuring run
  have readings := Calibrating.readings_of_run measuring run
  constructor
  · intro panicked
    rwa [panicked] at sound
  · intro divisor isDone
    rw [isDone] at sound readings
    obtain ⟨measured, periodic, initial, unmasked⟩ := sound
    obtain ⟨-, -, ⟨second, ⟨first, before, between, rfl, two⟩, since, rfl, hundred⟩, difference⟩ :=
      readings
    exact ⟨measured, periodic, unmasked, initial, first, second, before, between, since,
      difference, two, hundred⟩

end Readings

/-- The timer counts a thousand in a hundred ticks and is set to that. -/
theorem timerInit_returned_thousand :
    ∃ machine, Calibrating.Reaches ⟨readyDevices, .begin, none⟩ machine ∧
      machine.running = Calibration.done 1000 ∧ machine.shared.Measured ∧
      machine.shared.mode = .periodic ∧ machine.shared.initial = 1000 := by
  let lapicStart := 0xffffffff
  let waited : Devices := { tickedDevices with pitCount := 2 + 100 }
  let counted : Devices := { waited with current := lapicStart - 1000 }
  let masked : Devices := { counted with pitMasked := true }
  have reads : Calibrating.Reaches ⟨tickedDevices, .readStart 0, none⟩
      ⟨tickedDevices, .awaitEnd 0 lapicStart, none⟩ :=
    .head (.main rfl) (.single (.main rfl))
  have waits : Calibrating.Reaches ⟨tickedDevices, .awaitEnd 0 lapicStart, none⟩
      ⟨waited, .awaitEnd 0 lapicStart, none⟩ :=
    pit_ticks ⟨⟨rfl, rfl⟩, rfl⟩ List.not_mem_nil 100
  have counts : surroundings.device waited counted := ⟨_, rfl, Nat.sub_le _ _⟩
  have difference : lapicStart - (lapicStart - 1000) = 1000 := by decide
  have subtract : timerInit.next masked (.subtract lapicStart (lapicStart - 1000)) =
      some (masked, .lockTimer 1000) := by
    simp only [timerInit, Nat.sub_le, if_true, difference]
  have subtracts : Calibrating.Reaches ⟨counted, .awaitEnd 0 lapicStart, none⟩
      ⟨masked, .lockTimer 1000, none⟩ :=
    .head (.main rfl) (.head (.main rfl) (.head (.main rfl) (.head (.main rfl)
      (.head (.main rfl) (.single (.main subtract))))))
  have sets (devices : Devices) : Calibrating.Reaches ⟨devices, .lockTimer 1000, none⟩
      ⟨{ devices with timerMasked := false, mode := .periodic, initial := 1000, current := 1000 },
        .done 1000, none⟩ :=
    .head (.main rfl) (.head (.main rfl) (.head (.main rfl) (.head (.main rfl)
      (.head (.main rfl) (.single (.main rfl))))))
  have run := ((((readyDevices_reaches_read.trans reads).trans waits).tail
    (.device counts)).trans subtracts).trans (sets _)
  obtain ⟨-, returned⟩ := timerInit_returned readyDevices ⟨rfl, rfl⟩ _ run
  obtain ⟨measured, periodic, -, initial, -⟩ := returned 1000 rfl
  exact ⟨_, run, rfl, measured, periodic, initial⟩

end Canyon.Kernel
