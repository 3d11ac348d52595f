import Awayuki.Library.Runs

/-!
# Webview health

The monitor of `application/desktop/webview_health.rs`: native polling sends probes to the main
webview and asks for a reload when script or frame callbacks stop.

* `HealthState`: the monitor, with `navigation`, `pause`, `tick` and `complete`;
* `Observes`: its events at non-decreasing times;
* `Healthy`: every probe is answered in time and every visible answer has a new frame;
* `never_recovers_iff`: how far apart ticks may be for a healthy webview never to be reloaded.

Instants and durations are in nanoseconds.
-/

namespace Awayuki.Recovery.Webview

/-! ### Durations -/

variable {spacing : ℕ}

def second : ℕ := 1000000000

def pollInterval : ℕ := 5 * second
def gracePeriod : ℕ := 15 * second
def missedCheckInterval : ℕ := 15 * second
def recoveryTimeout : ℕ := 45 * second
def recoveryCooldown : ℕ := 120 * second
def recreationTimeout : ℕ := 60 * second
def slowProbeTimeout : ℕ := 15 * second
def consecutiveSlowProbes : ℕ := 3

/-! ### The monitor -/

inductive StallReason
  | javaScript | animationFrame | repeatedSlowJavaScript
  deriving DecidableEq, Repr

inductive Action
  | probe (id : ℕ)
  | missedCheck (reason : StallReason) (checks : ℕ)
  | recover (reason : StallReason)
  | recreate
  deriving DecidableEq, Repr

structure Progress where
  since : ℕ
  missedChecks : ℕ
  deriving DecidableEq, Repr

def Progress.new (now : ℕ) : Progress := ⟨now, 0⟩

/-- `saturating_duration_since`: the clock may have been reset to an instant to come. -/
def Progress.elapsed (progress : Progress) (now : ℕ) : ℕ := now - progress.since

/-- The check that is newly missed, if one is, and the progress that has counted it. -/
def Progress.missedCheck (progress : Progress) (now : ℕ) : Option (ℕ × Progress) :=
  let checks := min (progress.elapsed now / second / (missedCheckInterval / second)) 3
  if progress.missedChecks < checks then some (checks, { progress with missedChecks := checks })
  else none

structure PendingProbe where
  id : ℕ
  startedAt : ℕ
  deriving DecidableEq, Repr

structure FrameProgress where
  frame : ℕ
  progress : Progress
  deriving DecidableEq, Repr

structure HealthState where
  nextId : ℕ
  pending : Option PendingProbe
  consecutiveSlowProbes : ℕ
  javascript : Option Progress
  frame : Option FrameProgress
  nextProbeAt : ℕ
  lastTickWall : ℤ
  wasVisible : Bool
  cooldownUntil : Option ℕ
  awaitingRecoveryProgress : Bool
  recreateAfter : Option ℕ
  stopped : Bool
  deriving DecidableEq, Repr

structure ProbeResponse where
  version : ℕ
  visible : Bool
  frame : ℕ
  deriving DecidableEq, Repr

namespace HealthState

def new (now : ℕ) (wall : ℤ) : HealthState where
  nextId := 0
  pending := none
  consecutiveSlowProbes := 0
  javascript := none
  frame := none
  nextProbeAt := now + gracePeriod
  lastTickWall := wall
  wasVisible := false
  cooldownUntil := none
  awaitingRecoveryProgress := false
  recreateAfter := none
  stopped := false

def navigation (s : HealthState) (now : ℕ) : HealthState :=
  { s with
    pending := none
    consecutiveSlowProbes := 0
    javascript := none
    frame := none
    nextProbeAt := now + gracePeriod }

def pause (s : HealthState) (now : ℕ) : HealthState :=
  { s with
    nextProbeAt := now + gracePeriod
    consecutiveSlowProbes := 0
    recreateAfter := s.recreateAfter.map fun _ => now + gracePeriod + recreationTimeout
    -- The native evaluation stays outstanding.
    pending := s.pending.map fun pending => { pending with startedAt := now + gracePeriod }
    javascript := s.javascript.map fun _ => .new (now + gracePeriod)
    frame := s.frame.map fun frame => { frame with progress := .new (now + gracePeriod) } }

def beginRecovery (s : HealthState) (now : ℕ) : HealthState :=
  { s with
    cooldownUntil := some (now + recoveryCooldown)
    awaitingRecoveryProgress := true
    recreateAfter := some (now + recreationTimeout) }.navigation now

def beginRecreation (s : HealthState) (now : ℕ) : HealthState :=
  { s with recreateAfter := none }.navigation now

/-- `wall.duration_since` fails when the wall clock went back. -/
def schedulingGap (s : HealthState) (wall : ℤ) : Bool :=
  if s.lastTickWall ≤ wall then (gracePeriod : ℤ) < wall - s.lastTickWall else true

def pendingIsSlow (s : HealthState) (now : ℕ) : Bool :=
  s.pending.any fun pending => slowProbeTimeout ≤ now - pending.startedAt

def stalled (s : HealthState) (now : ℕ) : Option StallReason :=
  if s.javascript.any fun javascript => recoveryTimeout ≤ javascript.elapsed now then
    some .javaScript
  else if s.frame.any fun frame => recoveryTimeout ≤ frame.progress.elapsed now then
    some .animationFrame
  else if Webview.consecutiveSlowProbes ≤ s.consecutiveSlowProbes + (s.pendingIsSlow now).toNat then
    some .repeatedSlowJavaScript
  else none

def deadlinePassed (deadline : Option ℕ) (now : ℕ) : Bool := deadline.any (· ≤ now)

/-- The rest of a tick, when the window has been visible since the tick before. -/
def watch (s : HealthState) (now : ℕ) (recoveryAllowed : Bool) : Option Action × HealthState :=
  if deadlinePassed s.recreateAfter now then (some .recreate, s)
  else
    let cooldownComplete := s.cooldownUntil.all (· ≤ now)
    match (s.stalled now).filter fun _ => recoveryAllowed && cooldownComplete with
    | some reason => (some (.recover reason), s)
    | none =>
      match s.javascript.bind (·.missedCheck now) with
      | some (checks, javascript) =>
        (some (.missedCheck .javaScript checks), { s with javascript := some javascript })
      | none =>
        match s.frame.bind fun frame => (frame.progress.missedCheck now).map (frame.frame, ·) with
        | some (frame, checks, progress) =>
          (some (.missedCheck .animationFrame checks), { s with frame := some ⟨frame, progress⟩ })
        | none =>
          if s.pending.isNone && s.nextProbeAt ≤ now then
            (some (.probe (s.nextId + 1)),
              { s with
                nextId := s.nextId + 1
                pending := some ⟨s.nextId + 1, now⟩
                javascript := some (s.javascript.getD (.new now)) })
          else (none, s)

def tick (s : HealthState) (now : ℕ) (wall : ℤ) (visible recoveryAllowed : Bool) :
    Option Action × HealthState :=
  let gap := s.schedulingGap wall
  let s := { s with lastTickWall := wall }
  if s.stopped then (none, s)
  else if !visible || !s.wasVisible || gap then (none, { s with wasVisible := visible }.pause now)
  else s.watch now recoveryAllowed

/-- What a response of the right version changes, the probe having been taken. -/
def respond (s : HealthState) (pending : PendingProbe) (now : ℕ) (response : ProbeResponse)
    (frontendOwnsCheckpoint : Bool) : HealthState :=
  let slow := response.visible && s.wasVisible && slowProbeTimeout ≤ now - pending.startedAt
  let s :=
    { s with
      consecutiveSlowProbes :=
        if slow then min (s.consecutiveSlowProbes + 1) Webview.consecutiveSlowProbes else 0
      javascript := some (.new now) }
  if response.visible && s.wasVisible then
    match s.frame with
    | some frame =>
      if frame.frame ≠ response.frame then
        let s := { s with frame := some ⟨response.frame, .new now⟩ }
        if frontendOwnsCheckpoint then
          { s with awaitingRecoveryProgress := false, recreateAfter := none }
        else s
      else s
    | none => { s with frame := some ⟨response.frame, .new now⟩ }
  else { s with frame := none }

def complete (s : HealthState) (id now : ℕ) (response : Option ProbeResponse)
    (frontendOwnsCheckpoint : Bool) : Bool × HealthState :=
  match s.pending with
  | none => (false, s)
  | some pending =>
    if pending.id ≠ id then (false, s)
    else
      let s := { s with pending := none, nextProbeAt := now + pollInterval }
      match response.filter (·.version = 1) with
      | some response => (true, s.respond pending now response frontendOwnsCheckpoint)
      -- An empty answer leaves both progress clocks as they are.
      | none => (true, s)

end HealthState

/-! ### Events -/

/-- What reaches the monitor; `poll` begins a recovery or a recreation that it could reserve. -/
inductive Event
  | navigation
  | pause
  | tick (wall : ℤ) (visible recoveryAllowed : Bool)
  | complete (id : ℕ) (response : Option ProbeResponse) (frontendOwnsCheckpoint : Bool)
  | beginRecovery
  | beginRecreation
  deriving DecidableEq, Repr

def Event.isTick : Event → Bool
  | .tick .. => true
  | _ => false

def HealthState.handle (s : HealthState) (now : ℕ) : Event → Option Action × HealthState
  | .navigation => (none, s.navigation now)
  | .pause => (none, s.pause now)
  | .tick wall visible recoveryAllowed => s.tick now wall visible recoveryAllowed
  | .complete id response owns => (none, (s.complete id now response owns).2)
  | .beginRecovery => (none, s.beginRecovery now)
  | .beginRecreation => (none, s.beginRecreation now)

/-- No probe is left without an answer for the probe timeout, and the answer to the probe that is
pending is valid and, in a visible window, has another frame than the one before. -/
def HealthState.Healthy (s : HealthState) (now : ℕ) (event : Event) : Prop :=
  (∀ pending ∈ s.pending, now < pending.startedAt + slowProbeTimeout) ∧
    match event with
    | .complete id response _ =>
      ∀ pending ∈ s.pending, pending.id = id → ∃ answer ∈ response, answer.version = 1 ∧
        (answer.visible = true → s.wasVisible = true →
          ∀ frame ∈ s.frame, frame.frame ≠ answer.frame)
    | _ => True

instance (s : HealthState) (now : ℕ) : (event : Event) → Decidable (s.Healthy now event)
  | .complete .. => inferInstanceAs (Decidable (_ ∧ _))
  | .navigation | .pause | .tick .. | .beginRecovery | .beginRecreation =>
    inferInstanceAs (Decidable (_ ∧ True))

/-- The monitor with the time of the last event and the time of the last tick. -/
structure Monitor where
  health : HealthState
  clock : ℕ
  lastTick : Option ℕ
  deriving DecidableEq

namespace Monitor

def new (now : ℕ) (wall : ℤ) : Monitor := ⟨.new now wall, now, none⟩

def next (m : Monitor) (now : ℕ) (event : Event) : Monitor :=
  ⟨(m.health.handle now event).2, now, if event.isTick then some now else m.lastTick⟩

/-- An event of a healthy webview, at a time that is not before the last one. -/
def Admits (m : Monitor) (now : ℕ) (event : Event) : Prop :=
  m.clock ≤ now ∧ m.health.Healthy now event

/-- A tick comes at most so long after the tick before it. -/
def Timely (spacing : ℕ) (m : Monitor) (now : ℕ) (event : Event) : Prop :=
  event.isTick = true → ∀ last ∈ m.lastTick, now ≤ last + spacing

instance (m : Monitor) (now : ℕ) (event : Event) : Decidable (m.Admits now event) :=
  inferInstanceAs (Decidable (_ ∧ _))

instance (spacing : ℕ) (m : Monitor) (now : ℕ) (event : Event) :
    Decidable (m.Timely spacing now event) :=
  inferInstanceAs (Decidable (_ → _))

/-- The runs of a healthy webview whose ticks are at most `spacing` apart. -/
def Observes (spacing : ℕ) (m : Monitor) (event : ℕ × Event) (m' : Monitor) : Prop :=
  m.Admits event.1 event.2 ∧ m.Timely spacing event.1 event.2 ∧ m.next event.1 event.2 = m'

end Monitor

/-! ### What one tick does -/

namespace HealthState

/-- The outcomes of a tick, with what the state says about each. -/
inductive Ticked (s : HealthState) (now : ℕ) : Option Action → HealthState → Prop
  | stopped (h : s.stopped = true) : Ticked s now none s
  | paused (visible : Bool) : Ticked s now none ({ s with wasVisible := visible }.pause now)
  | recreate (h : deadlinePassed s.recreateAfter now = true) : Ticked s now (some .recreate) s
  | recover (reason : StallReason) (h : deadlinePassed s.recreateAfter now = false)
    (hstalled : s.stalled now = some reason) : Ticked s now (some (.recover reason)) s
  | missedScript (javascript : Progress) (checks : ℕ) (progress : Progress)
    (hdeadline : deadlinePassed s.recreateAfter now = false) (h : s.javascript = some javascript)
    (hmissed : javascript.missedCheck now = some (checks, progress)) :
    Ticked s now (some (.missedCheck .javaScript checks)) { s with javascript := some progress }
  | missedFrame (frame : FrameProgress) (checks : ℕ) (progress : Progress)
    (hdeadline : deadlinePassed s.recreateAfter now = false) (h : s.frame = some frame)
    (hmissed : frame.progress.missedCheck now = some (checks, progress)) :
    Ticked s now (some (.missedCheck .animationFrame checks))
      { s with frame := some ⟨frame.frame, progress⟩ }
  | probe (hdeadline : deadlinePassed s.recreateAfter now = false) (hpending : s.pending = none)
    (hdue : s.nextProbeAt ≤ now) :
    Ticked s now (some (.probe (s.nextId + 1)))
      { s with
        nextId := s.nextId + 1
        pending := some ⟨s.nextId + 1, now⟩
        javascript := some (s.javascript.getD (.new now)) }
  | idle (h : s.pending = none → now < s.nextProbeAt) : Ticked s now none s

theorem ticked_watch (s : HealthState) (now : ℕ) (recoveryAllowed : Bool) :
    Ticked s now (s.watch now recoveryAllowed).1 (s.watch now recoveryAllowed).2 := by
  unfold watch
  split
  next hdeadline => exact .recreate hdeadline
  next hdeadline =>
    have hdeadline : deadlinePassed s.recreateAfter now = false := by simpa using hdeadline
    dsimp only
    split
    next reason hreason => exact .recover reason hdeadline (Option.filter_eq_some_iff.1 hreason).1
    next =>
      split
      next checks progress hmissed =>
        obtain ⟨javascript, hjavascript, hmissed⟩ := Option.bind_eq_some_iff.1 hmissed
        exact .missedScript javascript checks progress hdeadline hjavascript hmissed
      next =>
        split
        next frame checks progress hmissed =>
          obtain ⟨f, hframe, hmissed⟩ := Option.bind_eq_some_iff.1 hmissed
          obtain ⟨⟨checks', progress'⟩, hmissed, heq⟩ := Option.map_eq_some_iff.1 hmissed
          cases heq
          exact .missedFrame f checks progress hdeadline hframe hmissed
        next =>
          split
          next hprobe =>
            rw [Bool.and_eq_true, Option.isNone_iff_eq_none, decide_eq_true_eq] at hprobe
            exact .probe hdeadline hprobe.1 hprobe.2
          next hprobe =>
            refine .idle fun hpending => not_le.1 fun hdue => hprobe ?_
            simp [hpending, hdue]

theorem ticked_tick (s : HealthState) (now : ℕ) (wall : ℤ) (visible recoveryAllowed : Bool) :
    Ticked { s with lastTickWall := wall } now (s.tick now wall visible recoveryAllowed).1
      (s.tick now wall visible recoveryAllowed).2 := by
  unfold tick
  dsimp only
  split_ifs with hstopped hpause
  · exact .stopped hstopped
  · exact .paused visible
  · exact ticked_watch _ now recoveryAllowed

theorem since_missedCheck {progress progress' : Progress} {now checks : ℕ}
    (h : progress.missedCheck now = some (checks, progress')) : progress'.since = progress.since := by
  dsimp only [Progress.missedCheck] at h
  split_ifs at h
  cases h
  rfl

/-- A check is missed no earlier than one interval after the last progress. -/
theorem le_of_missedCheck {progress progress' : Progress} {now checks : ℕ}
    (h : progress.missedCheck now = some (checks, progress')) :
    progress.since + missedCheckInterval ≤ now := by
  dsimp only [Progress.missedCheck] at h
  split_ifs at h with hlt
  have hpos : 0 < progress.elapsed now / second / (missedCheckInterval / second) :=
    lt_of_lt_of_le (Nat.zero_lt_of_lt hlt) (min_le_left _ _)
  simp only [Progress.elapsed, missedCheckInterval, second] at hpos ⊢
  omega

theorem deadlinePassed_iff {deadline : Option ℕ} {now : ℕ} :
    deadlinePassed deadline now = true ↔ ∃ instant ∈ deadline, instant ≤ now := by
  cases deadline <;> simp [deadlinePassed]

/-- Nothing is stalled while the clocks are young and no probe is overdue. -/
theorem stalled_eq_none {s : HealthState} {now : ℕ}
    (hscript : ∀ javascript ∈ s.javascript, now < javascript.since + recoveryTimeout)
    (hframe : ∀ frame ∈ s.frame, now < frame.progress.since + recoveryTimeout)
    (hpending : ∀ pending ∈ s.pending, now < pending.startedAt + slowProbeTimeout)
    (hstreak : s.consecutiveSlowProbes = 0) : s.stalled now = none := by
  have hjs : (s.javascript.any fun javascript => recoveryTimeout ≤ javascript.elapsed now) =
      false := by
    refine Bool.eq_false_iff.2 fun h => ?_
    obtain ⟨javascript, hmem, hlate⟩ := (Option.any_eq_true _ _).1 h
    have hyoung := hscript javascript hmem
    have hlate := of_decide_eq_true hlate
    simp only [Progress.elapsed, recoveryTimeout, second] at hyoung hlate
    omega
  have hfr : (s.frame.any fun frame => recoveryTimeout ≤ frame.progress.elapsed now) = false := by
    refine Bool.eq_false_iff.2 fun h => ?_
    obtain ⟨frame, hmem, hlate⟩ := (Option.any_eq_true _ _).1 h
    have hyoung := hframe frame hmem
    have hlate := of_decide_eq_true hlate
    simp only [Progress.elapsed, recoveryTimeout, second] at hyoung hlate
    omega
  have hslow : s.pendingIsSlow now = false := by
    refine Bool.eq_false_iff.2 fun h => ?_
    obtain ⟨pending, hmem, hlate⟩ := (Option.any_eq_true _ _).1 h
    have hyoung := hpending pending hmem
    have hlate := of_decide_eq_true hlate
    simp only [slowProbeTimeout, second] at hyoung hlate
    omega
  simp [stalled, hjs, hfr, hslow, hstreak, Webview.consecutiveSlowProbes]

/-- What an answer in time does: both clocks start again. -/
theorem respond_healthy {s : HealthState} {pending : PendingProbe} {now : ℕ}
    {response : ProbeResponse} (owns : Bool)
    (hprompt : now < pending.startedAt + slowProbeTimeout)
    (hframe : response.visible = true → s.wasVisible = true →
      ∀ frame ∈ s.frame, frame.frame ≠ response.frame) :
    (s.respond pending now response owns).stopped = s.stopped ∧
      (s.respond pending now response owns).consecutiveSlowProbes = 0 ∧
      (s.respond pending now response owns).pending = s.pending ∧
      (s.respond pending now response owns).javascript = some (.new now) ∧
      (s.respond pending now response owns).nextProbeAt = s.nextProbeAt ∧
      ∀ frame ∈ (s.respond pending now response owns).frame, frame.progress = .new now := by
  have hslow : decide (slowProbeTimeout ≤ now - pending.startedAt) = false := by
    rw [decide_eq_false_iff_not]
    simp only [slowProbeTimeout, second] at hprompt ⊢
    omega
  unfold respond
  simp only [hslow, Bool.and_false, Bool.false_eq_true, if_false]
  split
  next hvisible =>
    obtain ⟨hvisible, hwas⟩ := Bool.and_eq_true_iff.1 hvisible
    cases hold : s.frame with
    | none => simp
    | some frame =>
      have hne := hframe hvisible hwas frame hold
      cases owns <;> simp [hne]
  next => simp

end HealthState

/-! ### Ticks that come often enough -/

/-- The longest distance between ticks at which a probe is always sent before a check is missed. -/
def attentiveSpacing : ℕ := 10 * second

/-- What holds of the monitor of a healthy webview while ticks come often enough: both clocks
count from one instant, and at the last tick a probe was not due or was sent soon after it. -/
structure Attentive (s : HealthState) (lastTick : Option ℕ) : Prop where
  running : s.stopped = false
  streak : s.consecutiveSlowProbes = 0
  fresh : s.javascript = none → s.pending = none ∧ s.frame = none
  together : ∀ frame ∈ s.frame, ∀ javascript ∈ s.javascript,
    frame.progress.since = javascript.since
  due : ∀ javascript ∈ s.javascript, s.nextProbeAt ≤ javascript.since + pollInterval
  probed : ∀ javascript ∈ s.javascript, ∀ pending ∈ s.pending,
    pending.startedAt < javascript.since + missedCheckInterval
  waiting : ∀ javascript ∈ s.javascript, ∃ last ∈ lastTick, s.pending = none →
    last < javascript.since + pollInterval ∨ HealthState.deadlinePassed s.recreateAfter last = true

variable {m m' : Monitor} {event : ℕ × Event}

namespace Attentive

open HealthState

variable {s : HealthState} {lastTick : Option ℕ} {now : ℕ}

theorem new (now : ℕ) (wall : ℤ) : Attentive (.new now wall) none := by
  constructor <;> simp [HealthState.new]

/-- A document that is replaced leaves nothing behind. -/
theorem navigation (hrunning : s.stopped = false) (now : ℕ) (lastTick : Option ℕ) :
    Attentive (s.navigation now) lastTick := by
  constructor <;> simp [HealthState.navigation, hrunning]

/-- After a pause both clocks count from the end of the grace period, which is still to come. -/
theorem pause (h : Attentive s lastTick) {lastTick' : Option ℕ}
    (hlast : ∀ last ∈ lastTick, ∃ last' ∈ lastTick', last' ≤ now) :
    Attentive (s.pause now) lastTick' := by
  constructor
  case running => exact h.running
  case streak => rfl
  case fresh =>
    intro hnone
    have hnone : s.javascript = none := by simpa [HealthState.pause] using hnone
    simp [HealthState.pause, h.fresh hnone]
  case together => simp [HealthState.pause, Progress.new]
  case due => simp [HealthState.pause, Progress.new]
  case probed => simp [HealthState.pause, Progress.new, missedCheckInterval, second]
  case waiting =>
    intro javascript hmem
    obtain ⟨javascript₀, hmem₀, rfl⟩ := Option.map_eq_some_iff.1 hmem
    obtain ⟨last, hmem, -⟩ := h.waiting javascript₀ hmem₀
    obtain ⟨last', hmem', hle⟩ := hlast last hmem
    refine ⟨last', hmem', fun _ => .inl ?_⟩
    simp only [Progress.new, gracePeriod, pollInterval, second]
    omega

/-- A healthy answer starts both clocks again, after the last tick. -/
theorem complete (h : Attentive s lastTick) (hlast : ∀ last ∈ lastTick, last ≤ now) {id : ℕ}
    {response : Option ProbeResponse} {owns : Bool}
    (hhealthy : s.Healthy now (.complete id response owns)) :
    Attentive (s.complete id now response owns).2 lastTick := by
  unfold HealthState.complete
  split
  next => exact h
  next pending hpending =>
    split_ifs with hid
    · exact h
    obtain ⟨hprompt, hvalid⟩ := hhealthy
    obtain ⟨answer, hanswer, hversion, hframe⟩ := hvalid pending hpending (not_not.1 hid)
    have hfilter : response.filter (·.version = 1) = some answer := by
      rw [hanswer, Option.filter_some, if_pos (decide_eq_true hversion)]
    rw [hfilter]
    obtain ⟨javascript, hjavascript⟩ : ∃ javascript, s.javascript = some javascript := by
      refine Option.ne_none_iff_exists'.1 fun hnone => ?_
      simp [(h.fresh hnone).1] at hpending
    obtain ⟨last, hmem, -⟩ := h.waiting javascript hjavascript
    obtain ⟨hstopped, hstreak, hpend, hjs, hnext, hfr⟩ :=
      respond_healthy (s := { s with pending := none, nextProbeAt := now + pollInterval })
        owns (hprompt pending hpending) hframe
    constructor
    case running => exact hstopped.trans h.running
    case streak => exact hstreak
    case fresh => simp [hjs]
    case together =>
      intro frame hmem javascript hmem'
      rw [hjs] at hmem'
      cases hmem'
      rw [hfr frame hmem]
    case due => simp [hjs, hnext, Progress.new]
    case probed => simp [hpend]
    case waiting =>
      intro javascript hmem'
      rw [hjs] at hmem'
      cases hmem'
      refine ⟨last, hmem, fun _ => .inl ?_⟩
      have hle := hlast last hmem
      simp only [Progress.new, pollInterval, second]
      omega

/-- While the clocks are right, a probe that is pending was sent soon after the last progress, and
without one the next tick comes soon after it. -/
theorem young (h : Attentive s lastTick)
    (hpending : ∀ pending ∈ s.pending, now < pending.startedAt + slowProbeTimeout)
    (hspacing : ∀ last ∈ lastTick, last ≤ now ∧ now ≤ last + attentiveSpacing)
    (hdeadline : deadlinePassed s.recreateAfter now = false) :
    ∀ javascript ∈ s.javascript, now < javascript.since + 2 * missedCheckInterval ∧
      (s.pending = none → now < javascript.since + missedCheckInterval) := by
  intro javascript hmem
  obtain ⟨last, hlast, hwaiting⟩ := h.waiting javascript hmem
  have hnear : s.pending = none → now < javascript.since + missedCheckInterval := by
    intro hnone
    obtain ⟨hle, hspaced⟩ := hspacing last hlast
    rcases hwaiting hnone with hbefore | hpassed
    · simp only [pollInterval, missedCheckInterval, attentiveSpacing, second] at *
      omega
    · obtain ⟨instant, hinstant, hpast⟩ := deadlinePassed_iff.1 hpassed
      have hpassed := deadlinePassed_iff.2 ⟨instant, hinstant, hpast.trans hle⟩
      simp [hdeadline] at hpassed
  refine ⟨?_, hnear⟩
  cases hnone : s.pending with
  | none =>
    have hnear := hnear hnone
    omega
  | some pending =>
    have hprompt := hpending pending hnone
    have hprobed := h.probed javascript hmem pending hnone
    simp only [slowProbeTimeout, missedCheckInterval, second] at *
    omega

theorem stalled_eq_none (h : Attentive s lastTick)
    (hpending : ∀ pending ∈ s.pending, now < pending.startedAt + slowProbeTimeout)
    (hspacing : ∀ last ∈ lastTick, last ≤ now ∧ now ≤ last + attentiveSpacing)
    (hdeadline : deadlinePassed s.recreateAfter now = false) : s.stalled now = none := by
  have hyoung := h.young hpending hspacing hdeadline
  have hscript : ∀ javascript ∈ s.javascript, now < javascript.since + recoveryTimeout := by
    intro javascript hmem
    have hlt := (hyoung javascript hmem).1
    simp only [missedCheckInterval, recoveryTimeout, second] at *
    omega
  refine HealthState.stalled_eq_none hscript (fun frame hframe => ?_) hpending h.streak
  cases hjs : s.javascript with
  | none =>
    have hnone := (h.fresh hjs).2
    simp [hnone] at hframe
  | some javascript =>
    rw [h.together frame hframe javascript hjs]
    exact hscript javascript hjs

/-- One tick that comes in time keeps the clocks right. -/
theorem ticked (h : Attentive s lastTick)
    (hpending : ∀ pending ∈ s.pending, now < pending.startedAt + slowProbeTimeout)
    (hspacing : ∀ last ∈ lastTick, last ≤ now ∧ now ≤ last + attentiveSpacing)
    {action : Option Action} {s' : HealthState} (htick : Ticked s now action s') :
    Attentive s' (some now) := by
  have hyoung := h.young hpending hspacing
  cases htick with
  | stopped hstopped => simp [h.running] at hstopped
  | paused visible =>
    have h' : Attentive { s with wasVisible := visible } lastTick := { h with }
    exact h'.pause fun _ _ => ⟨now, rfl, le_rfl⟩
  | recreate hpassed =>
    exact { h with waiting := fun _ _ => ⟨now, rfl, fun _ => .inr hpassed⟩ }
  | recover reason hdeadline hstalled =>
    rw [h.stalled_eq_none hpending hspacing hdeadline] at hstalled
    cases hstalled
  | missedScript javascript checks progress hdeadline hjs hmissed =>
    have hsince := since_missedCheck hmissed
    have hle := le_of_missedCheck hmissed
    -- A check is missed only while a probe is out.
    have hout : s.pending ≠ none := fun hnone =>
      not_lt.2 hle ((hyoung hdeadline javascript hjs).2 hnone)
    constructor
    case running => exact h.running
    case streak => exact h.streak
    case fresh => simp
    case together =>
      rintro frame hframe _ ⟨⟩
      exact (h.together frame hframe javascript hjs).trans hsince.symm
    case due =>
      rintro _ ⟨⟩
      exact hsince ▸ h.due javascript hjs
    case probed =>
      rintro _ ⟨⟩ pending hmem
      exact hsince ▸ h.probed javascript hjs pending hmem
    case waiting => exact fun _ _ => ⟨now, rfl, fun hnone => absurd hnone hout⟩
  | missedFrame frame checks progress hdeadline hframe hmissed =>
    have hsince := since_missedCheck hmissed
    have hle := le_of_missedCheck hmissed
    have hout : s.pending ≠ none := by
      intro hnone
      cases hjs : s.javascript with
      | none => simp [(h.fresh hjs).2] at hframe
      | some javascript =>
        rw [h.together frame hframe javascript hjs] at hle
        exact not_lt.2 hle ((hyoung hdeadline javascript hjs).2 hnone)
    refine { h with
      fresh := fun hjs => ?_
      together := ?_
      waiting := fun _ _ => ⟨now, rfl, fun hnone => absurd hnone hout⟩ }
    · simp [(h.fresh hjs).2] at hframe
    · rintro _ ⟨⟩ javascript hjs
      exact hsince.trans (h.together frame hframe javascript hjs)
  | probe hdeadline hnone hdue =>
    constructor
    case running => exact h.running
    case streak => exact h.streak
    case fresh => simp
    case together =>
      rintro frame hframe _ ⟨⟩
      cases hjs : s.javascript with
      | none => simp [(h.fresh hjs).2] at hframe
      | some javascript => exact h.together frame hframe javascript hjs
    case due =>
      rintro _ ⟨⟩
      cases hjs : s.javascript with
      | none => exact hdue.trans (Nat.le_add_right _ _)
      | some javascript => exact h.due javascript hjs
    case probed =>
      rintro _ ⟨⟩ _ ⟨⟩
      cases hjs : s.javascript with
      | none => simp [Progress.new, missedCheckInterval, second]
      | some javascript => exact (hyoung hdeadline javascript hjs).2 hnone
    case waiting => exact fun _ _ => ⟨now, rfl, fun hnone => absurd hnone (by simp)⟩
  | idle hidle =>
    refine { h with waiting := fun javascript hjs => ⟨now, rfl, fun hnone => .inl ?_⟩ }
    exact (hidle hnone).trans_le (h.due javascript hjs)

/-- One event of a healthy webview keeps the clocks right. -/
theorem next (h : Attentive m.health m.lastTick) (hclock : ∀ last ∈ m.lastTick, last ≤ m.clock)
    (hstep : m.Observes attentiveSpacing event m') :
    Attentive m'.health m'.lastTick ∧ ∀ last ∈ m'.lastTick, last ≤ m'.clock := by
  obtain ⟨⟨hlater, hhealthy⟩, htimely, rfl⟩ := hstep
  obtain ⟨now, event⟩ := event
  have hle : ∀ last ∈ m.lastTick, last ≤ now := fun last hlast => (hclock last hlast).trans hlater
  cases event with
  | navigation => exact ⟨navigation h.running now _, hle⟩
  | pause => exact ⟨h.pause fun last hlast => ⟨last, hlast, hle last hlast⟩, hle⟩
  | tick wall visible recoveryAllowed =>
    refine ⟨?_, fun last hlast => (Option.some.inj hlast).ge⟩
    have h' : Attentive { m.health with lastTickWall := wall } m.lastTick := { h with }
    exact h'.ticked hhealthy.1 (fun last hlast => ⟨hle last hlast, htimely rfl last hlast⟩)
      (ticked_tick m.health now wall visible recoveryAllowed)
  | complete id response owns => exact ⟨h.complete hle hhealthy, hle⟩
  | beginRecovery =>
    refine ⟨?_, hle⟩
    exact navigation (s := { m.health with
      cooldownUntil := some (now + recoveryCooldown)
      awaitingRecoveryProgress := true
      recreateAfter := some (now + recreationTimeout) }) h.running now _
  | beginRecreation =>
    refine ⟨?_, hle⟩
    exact navigation (s := { m.health with recreateAfter := none }) h.running now _

/-- A tick that comes in time does not ask for a reload. -/
theorem ne_recover (h : Attentive m.health m.lastTick)
    (hclock : ∀ last ∈ m.lastTick, last ≤ m.clock) (hstep : m.Observes attentiveSpacing event m')
    (reason : StallReason) : (m.health.handle event.1 event.2).1 ≠ some (.recover reason) := by
  obtain ⟨⟨hlater, hhealthy⟩, htimely, -⟩ := hstep
  obtain ⟨now, event⟩ := event
  cases event with
  | tick wall visible recoveryAllowed =>
    have h' : Attentive { m.health with lastTickWall := wall } m.lastTick := { h with }
    intro hrecover
    have htick := ticked_tick m.health now wall visible recoveryAllowed
    rw [show (m.health.tick now wall visible recoveryAllowed).1 = some (.recover reason) from
      hrecover] at htick
    generalize (m.health.tick now wall visible recoveryAllowed).2 = s' at htick
    cases htick with
    | recover _ hdeadline hstalled =>
      rw [h'.stalled_eq_none hhealthy.1
        (fun last hlast => ⟨(hclock last hlast).trans hlater, htimely rfl last hlast⟩)
        hdeadline] at hstalled
      cases hstalled
  | navigation | pause | complete _ _ _ | beginRecovery | beginRecreation => simp [HealthState.handle]

end Attentive

/-! ### Healthy webviews are not reloaded -/

/-- Does no tick of any run of a healthy webview ask for a reload? -/
def NeverRecovers (spacing : ℕ) : Prop :=
  ∀ start wall events m event m', Runs.Run (Monitor.Observes spacing) (.new start wall) events m →
    m.Observes spacing event m' →
      ∀ reason, (m.health.handle event.1 event.2).1 ≠ some (.recover reason)

/-- A run whose answers all come at once.  After the first one the ticks miss a check of the
script, a check of the frame and a second one of the script before a probe is sent. -/
def sparseRun : List (ℕ × Event) :=
  [(0, .tick 0 true true), (10 * second, .tick (10 * second) true true),
    (15 * second, .tick (15 * second) true true), (15 * second, .complete 1 (some ⟨1, true, 1⟩) true),
    (20 * second - 1, .tick (20 * second - 1) true true),
    (30 * second, .tick (30 * second) true true), (40 * second, .tick (40 * second) true true),
    (50 * second, .tick (50 * second) true true)]

/-- `Monitor.Observes` as a function. -/
def Monitor.advance (spacing : ℕ) (m : Monitor) (event : ℕ × Event) : Option Monitor :=
  if m.Admits event.1 event.2 ∧ m.Timely spacing event.1 event.2 then
    some (m.next event.1 event.2)
  else none

theorem Monitor.advance_eq_some :
    m.advance spacing event = some m' ↔ m.Observes spacing event m' := by
  simp [Monitor.advance, Monitor.Observes, and_assoc]

/-- No probe is pending at the end, and the next tick asks for a reload. -/
theorem sparseRun_recovers : ∃ m ∈ sparseRun.foldlM (Monitor.advance (attentiveSpacing + 1))
    (.new 0 0), m.health.pending = none ∧
      (m.advance (attentiveSpacing + 1) (60 * second, .tick (60 * second) true true)).isSome =
        true ∧
      (m.health.handle (60 * second) (.tick (60 * second) true true)).1 =
        some (.recover .javaScript) := by
  decide +kernel

/-- Runs with ticks closer together are runs with ticks further apart. -/
theorem Monitor.Observes.mono {spacing' : ℕ} (hle : spacing ≤ spacing')
    (h : m.Observes spacing event m') : m.Observes spacing' event m' := by
  obtain ⟨hadmits, htimely, hnext⟩ := h
  exact ⟨hadmits, fun htick last hlast => (htimely htick last hlast).trans (by omega), hnext⟩

/-- One nanosecond over ten seconds is too far apart. -/
theorem not_neverRecovers_of_lt (hlt : attentiveSpacing < spacing) : ¬ NeverRecovers spacing := by
  intro h
  obtain ⟨m, hrun, -, hlast, hrecover⟩ := sparseRun_recovers
  obtain ⟨m', hlast⟩ := Option.isSome_iff_exists.1 hlast
  have hrun : Runs.Run (Monitor.Observes (attentiveSpacing + 1)) (.new 0 0) sparseRun m :=
    (Runs.run_iff_foldlM.2 hrun).mono Monitor.advance_eq_some.1
  exact h 0 0 sparseRun m _ m' (hrun.mono (Monitor.Observes.mono hlt))
    ((Monitor.advance_eq_some.1 hlast).mono hlt) .javaScript hrecover

/-- A healthy webview is never reloaded exactly when ticks are at most ten seconds apart. -/
theorem neverRecovers_iff (spacing : ℕ) : NeverRecovers spacing ↔ spacing ≤ 10 * second := by
  constructor
  · intro h
    by_contra hlt
    exact not_neverRecovers_of_lt (not_le.1 hlt) h
  · intro hle start wall events m event m' hrun hstep
    have hrun := hrun.mono (Monitor.Observes.mono hle)
    obtain ⟨hattentive, hclock⟩ :=
      hrun.invariant
        (I := fun m => Attentive m.health m.lastTick ∧ ∀ last ∈ m.lastTick, last ≤ m.clock)
        ⟨Attentive.new start wall, by simp [Monitor.new]⟩ fun h hstep => h.1.next h.2 hstep
    exact hattentive.ne_recover hclock (hstep.mono hle)

/-- A webview that answers everything at once is reloaded, without a scheduling gap. -/
theorem not_forall_neverRecovers : ¬ ∀ spacing, NeverRecovers spacing := fun h =>
  not_neverRecovers_of_lt (by decide : attentiveSpacing < gracePeriod) (h gracePeriod)

end Awayuki.Recovery.Webview
