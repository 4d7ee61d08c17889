/-
# LoliLoader.Interaction.Timer -- getchar_timeout of src/interaction.c

The calls by which a key is waited for, with a timer for the first key of a line. The time is worked
out as an `int` and widened by the call.

The timer of UEFI counts in units of 100 ns, so seconds are multiplied by ten million. The source
does this with `int`s and leaves the widening to the call, which comes too late: with 215 seconds
and more the product overflows. An overflow is undefined in C; `triggerTime` has the value that
compilers give it, and `triggerChecked` shows that an operation overflows under the same condition.

`WaitsFor` is what a configured timeout is for: a timer for the first key, set to the time in the
right units, and none for any other key. A timeout of zero means none at all, and then no timer is
made.

The calls are kept in the order in which they are made, with what they answer. If the timer cannot
be created or set, the function panics, and there is no answer.
-/
import LoliLoader.Boot.Firmware
import LoliLoader.Interaction.Input
import LoliLoader.Menu.Number
import LoliLoader.Menu.Options

namespace LoliLoader.Interaction

open C Menu Boot

/-! ## Firmware calls -/

/-- A call of the firmware while a key is waited for, with the arguments that matter here. -/
inductive InputCall where
  /-- of an event of type `EVT_TIMER` -/
  | createEvent
  /-- with `EFI_TIMER_RELATIVE` -/
  | setTimer (triggerTime : UInt64)
  | waitForEvent (eventNum : UInt64)
  | closeEvent
  | readKeyStroke
  deriving DecidableEq, Repr

/-- What the calls for one key answer: their statuses, which event has come, and the key that was
read. -/
structure KeyAnswers where
  createEvent : Status
  setTimer : Status
  waitForEvent : Status
  index : UInt64
  readKeyStroke : Status
  key : EfiInputKey
  deriving DecidableEq, Repr

/-- How `getchar_timeout` ends: it panics, or it returns `EOF` or a character. -/
inductive Getchar where
  | panic (msg : String)
  | eof
  | char (c : Nat)
  deriving DecidableEq, Repr

/-! ## getchar_timeout -/

/-- `timeout * 1000 * 1000 * 10`, as the 64-bit argument of the call. C leaves an overflow
undefined; here the product wraps around. -/
def triggerTime (timeout : Int32) : UInt64 := (timeout * 1000 * 1000 * 10).toInt64.toUInt64

/-- The same product, with every operation checked. -/
def triggerChecked (timeout : Int) : Option Int := do
  checkedInt ((← checkedInt ((← checkedInt (timeout * 1000)) * 1000)) * 10)

/-- `getchar_timeout` from `waitForEvent` on: the calls it makes, and how it ends. The timer is the
second event, if there is one. -/
def waitForKey (timer : Bool) (a : KeyAnswers) : List InputCall × Getchar :=
  let waited := [.waitForEvent (if timer then 2 else 1)]
  if a.waitForEvent ≠ EFI_SUCCESS then (waited, .panic "error occurs when waiting for events")
  else
    let waited := if timer then waited ++ [.closeEvent] else waited
    if timer ∧ a.index = 1 then (waited, .eof)
    else
      let waited := waited ++ [.readKeyStroke]
      if a.readKeyStroke ≠ EFI_SUCCESS then (waited, .panic "Can't read inputs")
      else (waited, .char (getcharTranslate a.key))

/-- `getchar_timeout`: the calls it makes, and how it ends. With a timeout of 0 there is no
timer. -/
def getcharTimeout (timeout : Int32) (a : KeyAnswers) : List InputCall × Getchar :=
  if timeout = 0 then waitForKey false a
  else if a.createEvent ≠ EFI_SUCCESS then ([.createEvent], .panic "Can't create timer event")
  else
    let armed := [.createEvent, .setTimer (triggerTime timeout)]
    if a.setTimer ≠ EFI_SUCCESS then (armed, .panic "Can't configure timer")
    else
      let (calls, c) := waitForKey true a
      (armed ++ calls, c)

/-- The calls of `getline_timeout`; only the first key has the timeout. -/
def getlineCalls : Int32 → List KeyAnswers → List InputCall
  | _, [] => []
  | timeout, a :: answers =>
    let (calls, c) := getcharTimeout timeout a
    match c with
    | .char c => if c ≠ 13 ∧ c ≠ 10 then calls ++ getlineCalls 0 answers else calls
    | _ => calls

/-- The time a call sets the timer to, if it is one that sets it. -/
def InputCall.timerSet : InputCall → Option UInt64
  | .setTimer triggerTime => some triggerTime
  | _ => none

/-- The times `getline_timeout` sets timers to, in the order in which it does. -/
def timersSet (timeout : Int32) (answers : List KeyAnswers) : List UInt64 :=
  (getlineCalls timeout answers).filterMap InputCall.timerSet

/-! ## Timers of a line -/

theorem waitForKey_timers (timer : Bool) (a : KeyAnswers) :
    (waitForKey timer a).1.filterMap InputCall.timerSet = [] := by
  unfold waitForKey
  cases timer with
  | false =>
      dsimp only
      split
      · rfl
      · split
        · rfl
        · split <;> rfl
  | true =>
      dsimp only
      split
      · rfl
      · split
        · rfl
        · split <;> rfl

/-- Without a timeout there is no timer. -/
theorem timersSet_zero (answers : List KeyAnswers) : timersSet 0 answers = [] := by
  induction answers with
  | nil => rfl
  | cons a answers ih =>
      have hcalls : (getcharTimeout 0 a).1.filterMap InputCall.timerSet = [] :=
        waitForKey_timers false a
      unfold timersSet getlineCalls
      dsimp only
      split
      · split
        · rw [List.filterMap_append, hcalls]
          exact ih
        · exact hcalls
      · exact hcalls

/-- With one, the first key sets one timer, and no other key does. -/
theorem timersSet_first {timeout : Int32} (h : timeout ≠ 0) {a : KeyAnswers}
    (ha : a.createEvent = EFI_SUCCESS) (answers : List KeyAnswers) :
    timersSet timeout (a :: answers) = [triggerTime timeout] := by
  have hcalls : (getcharTimeout timeout a).1.filterMap InputCall.timerSet
      = [triggerTime timeout] := by
    rw [getcharTimeout, if_neg h, if_neg (not_not.mpr ha)]
    dsimp only
    split
    · rfl
    · rw [List.filterMap_append, waitForKey_timers]
      rfl
  unfold timersSet getlineCalls
  dsimp only
  split
  · split
    · have hrest := timersSet_zero answers
      rw [timersSet] at hrest
      rw [List.filterMap_append, hcalls, hrest]
      rfl
    · exact hcalls
  · exact hcalls

/-! ## The time -/

/-- A number of seconds in units of 100 ns, which is what the timer counts in. -/
def hundredNanoseconds (seconds : Nat) : UInt64 := UInt64.ofNat (seconds * 10000000)

theorem toNat_widened (i : Int32) : (i.toInt64.toUInt64.toNat : Int) = i.toInt % 2 ^ 64 := by
  have htoInt : i.toInt64.toBitVec.toInt = i.toInt := Int32.toInt_toInt64 i
  have hlt := i.toInt64.toBitVec.isLt
  rw [BitVec.toInt_eq_toNat_cond] at htoInt
  show (i.toInt64.toBitVec.toNat : Int) = _
  split at htoInt <;> omega

theorem triggerTime_toNat (timeout : Int32) :
    ((triggerTime timeout).toNat : Int)
      = (timeout.toInt * 10000000).bmod (2 ^ 32) % 2 ^ 64 := by
  have hproduct : (timeout * 1000 * 1000 * 10).toInt
      = (timeout.toInt * 10000000).bmod (2 ^ 32) := by
    have hsame : timeout * 1000 * 1000 * 10 = Int32.ofInt (timeout.toInt * 10000000) := by
      rw [Int32.ofInt_mul, Int32.ofInt_toInt, Int32.mul_assoc, Int32.mul_assoc]
      rfl
    rw [hsame, Int32.toInt_ofInt]
    rfl
  rw [triggerTime, toNat_widened, hproduct]

/-- **The time is exact** as long as it fits an `int`, which it does for up to 214 seconds and for
no more. -/
theorem triggerTime_iff {timeout : Int32} (h : 0 < timeout.toInt) :
    triggerTime timeout = hundredNanoseconds timeout.toInt.toNat ↔ timeout.toInt ≤ 214 := by
  have hlt := timeout.toInt_lt
  have htrigger := triggerTime_toNat timeout
  have hexact : (hundredNanoseconds timeout.toInt.toNat).toNat = timeout.toInt.toNat * 10000000 :=
    UInt64.toNat_ofNat_of_lt' (by show _ < 2 ^ 64; omega)
  rw [← UInt64.toNat_inj, hexact]
  refine ⟨?_, ?_⟩
  · intro heq
    rw [heq] at htrigger
    have hhigh := @Int.bmod_lt (timeout.toInt * 10000000) (2 ^ 32) (by decide)
    have hlow := @Int.le_bmod (timeout.toInt * 10000000) (2 ^ 32) (by decide)
    generalize (timeout.toInt * 10000000).bmod (2 ^ 32) = i at htrigger hhigh hlow
    -- what is widened is a small number, or one that is negative and becomes very large
    rcases Int.lt_or_le i 0 with hneg | hpos
    · have hwide : i % 2 ^ 64 = i + 2 ^ 64 := by omega
      omega
    · have hwide : i % 2 ^ 64 = i := by omega
      omega
  · intro hle
    have hbmod : (timeout.toInt * 10000000).bmod (2 ^ 32) = timeout.toInt * 10000000 :=
      Int.bmod_eq_of_le_mul_two (by omega) (by omega)
    rw [hbmod] at htrigger
    omega

/-- No operation overflows on the way under the same condition. -/
theorem triggerChecked_iff {t : Int} (h : 0 < t) :
    triggerChecked t = some (t * 10000000) ↔ t ≤ 214 := by
  have hproduct : t * 1000 * 1000 * 10 = t * 10000000 := by ring
  refine ⟨?_, ?_⟩
  · intro hsome
    obtain ⟨i, -, hsome⟩ := Option.bind_eq_some_iff.mp hsome
    obtain ⟨j, -, hsome⟩ := Option.bind_eq_some_iff.mp hsome
    unfold checkedInt at hsome
    split at hsome
    · have hj := Option.some.inj hsome
      omega
    · cases hsome
  · intro hle
    have hchecked : ∀ i : Int, 0 < i → i ≤ 2140000000 → checkedInt i = some i := by
      intro i hpos hi
      rw [checkedInt, if_pos (by omega)]
    rw [triggerChecked, hchecked _ (by omega) (by omega)]
    show (checkedInt (t * 1000 * 1000) >>= fun j => checkedInt (j * 10)) = _
    rw [hchecked _ (by omega) (by omega)]
    show checkedInt (t * 1000 * 1000 * 10) = _
    rw [hproduct, hchecked _ (by omega) (by omega)]

/-! ## The configured timeout -/

/-- The first key of a line is waited for just this many seconds, and no other key has a timer. -/
def WaitsFor (timeout : Int32) (seconds : Nat) : Prop :=
  ∀ a answers, a.createEvent = EFI_SUCCESS →
    timersSet timeout (a :: answers) = [hundredNanoseconds seconds]

theorem waitsFor_iff {timeout : Int32} (h : 0 < timeout.toInt) :
    WaitsFor timeout timeout.toInt.toNat ↔ timeout.toInt ≤ 214 := by
  have hne : timeout ≠ 0 := by
    rintro rfl
    exact absurd h (by decide)
  rw [← triggerTime_iff h]
  refine ⟨?_, ?_⟩
  · intro hwaits
    have hfirst := hwaits ⟨0, 0, 0, 0, 0, ⟨0, 0⟩⟩ [] rfl
    rw [timersSet_first hne rfl] at hfirst
    exact List.singleton_inj.mp hfirst
  · intro htrigger a answers ha
    rw [timersSet_first hne ha, htrigger]

/-- **The configured timeout** is the time waited exactly if it is at most 214 seconds. With more
the product overflows. The menu hands it to its first prompt as it was configured. -/
theorem timeout_waited_iff {cfg : CString} {timeout : Int32} {out : List Output}
    (h : menuGetTimeout cfg = .ok (timeout, out)) (hpos : 0 < timeout) :
    (WaitsFor timeout timeout.toInt.toNat ↔ timeout.toInt ≤ 214) ∧
    (triggerChecked timeout.toInt = some (timeout.toInt * 10000000) ↔ timeout.toInt ≤ 214) ∧
    ∀ ck, ∃ m, cmdlineSetup ck cfg = .ok m ∧ m.timeout = timeout := by
  have hpos' : 0 < timeout.toInt := Int32.lt_iff_toInt_lt.mp hpos
  refine ⟨waitsFor_iff hpos', triggerChecked_iff hpos', ?_⟩
  intro ck
  obtain ⟨timeout', warning, output, htimeout, -, hsetup⟩ := cmdlineSetup_eq ck cfg
  rw [h] at htimeout
  refine ⟨_, hsetup, ?_⟩
  exact (Prod.mk.inj (Except.ok.inj htimeout)).1.symm

/-- The configuration of a timeout, and nothing else. -/
def timeoutConfig : CString := ⟨ascii "timeout 5\n", by decide⟩

theorem timeout_waited_iff_five : WaitsFor 5 5 ∧ ∀ ck, ∃ m,
    cmdlineSetup ck timeoutConfig = .ok m ∧ m.timeout = 5 := by
  have hfive : menuGetTimeout timeoutConfig = .ok (5, []) := by decide +kernel
  have hiff := timeout_waited_iff hfive (by decide)
  exact ⟨hiff.1.mpr (by decide), hiff.2.2⟩

/-- With 215 seconds configured the timer is set to a time of fifty thousand years. -/
theorem timeout_not_waited :
    menuGetTimeout ⟨ascii "timeout 215\n", by decide⟩ = .ok (215, []) ∧ ¬ WaitsFor 215 215 ∧
      timersSet 215 [⟨0, 0, 0, 0, 0, ⟨0, 13⟩⟩] = [18446744071564584320] := by
  refine ⟨by decide +kernel, ?_, by decide +kernel⟩
  intro hwaits
  have hfirst := hwaits ⟨0, 0, 0, 0, 0, ⟨0, 13⟩⟩ [] rfl
  exact absurd hfirst (by decide +kernel)

end LoliLoader.Interaction
