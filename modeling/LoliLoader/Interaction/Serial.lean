/-
# LoliLoader.Interaction.Serial -- src/serial.c

A serial port may take fewer bytes than it is asked to. The calls of `write` are kept as they are
made, with the count that each of them stores.

What a port takes is up to the port: `Accepts` has an answer for every call, and it may depend on
how many calls there have been. `Obliging` is all that is assumed of it, that a call takes at least
one byte and no more than it was asked to. A port that takes none would make the loop of the source
go on for ever.

The loop is defined with a bound on its turns, and `serialPortLoop_ok` says that it comes to its end
in no more turns than there are bytes. So the bound in the statement is no restriction: any number
of turns that is large enough gives the same calls.

`Delivers` says what each call asks for, not only what has arrived in the end: just the bytes that
the port has not got yet. That the text arrives once and in order follows from it.
-/
import LoliLoader.C.Memory
import Mathlib.Algebra.Group.Nat.Defs

namespace LoliLoader.Interaction

open C

/-! ## Ports -/

/-- `gSerialStatus.num` and `gSerialAvailable`: without a port none is available. -/
structure SerialStatus where
  num : Nat
  available : Bool
  unavailable : available = false → num = 0

/-- `serial_init`: there is no port, or the firmware has handles for `num` of them. -/
def serialInit : Option Nat → SerialStatus
  | none => ⟨0, false, fun _ => rfl⟩
  | some num => ⟨num, true, fun h => absurd h (by decide)⟩

/-- A string in memory. No object has 2^64 bytes, so its length is a `uint_native`. -/
structure Text where
  string : CString
  fits : string.length < 2 ^ 64

/-- `strlen`, as `uint_native`; it is the length of the string, since that fits. -/
def Text.size (text : Text) : UInt64 := UInt64.ofNat text.string.length

theorem Text.size_toNat (text : Text) : text.size.toNat = text.string.length :=
  UInt64.toNat_ofNat_of_lt' text.fits

/-- A call of `write`: the port, the place in the buffer, the count it asks for, and the count
that is stored. -/
structure SerialWrite where
  port : Nat
  position : UInt64
  asked : UInt64
  accepted : UInt64
  deriving DecidableEq, Repr

/-- What the ports answer: the count stored by the `k`-th call, which asks for `asked` bytes. -/
abbrev Accepts := Nat → UInt64 → UInt64

/-- Every call takes at least one byte, and no more than it is asked to. -/
def Obliging (accepts : Accepts) : Prop :=
  ∀ k asked, asked ≠ 0 → 1 ≤ accepts k asked ∧ accepts k asked ≤ asked

/-! ## serial_write -/

section

variable (accepts : Accepts)

/-- The loop for one port, with `remain` bytes to go, after `k` calls: the calls it makes, when it
comes to its end in fewer than `fuel` turns. -/
def serialPortLoop (port : Nat) (size : UInt64) : Nat → Nat → UInt64 → Option (List SerialWrite)
  | 0, _, _ => none
  | fuel + 1, k, remain =>
    if remain = 0 then some []
    else
      -- `written` is `remain` before the call
      let written := accepts k remain
      (serialPortLoop port size fuel (k + 1) (remain - written)).map
        (⟨port, size - remain, remain, written⟩ :: ·)

/-- The loop over the ports: each gets all of the text before the next one gets any of it. -/
def serialPorts (size : UInt64) (fuel : Nat) : List Nat → Nat → Option (List SerialWrite)
  | [], _ => some []
  | port :: ports, k => do
    let calls ← serialPortLoop accepts port size fuel k size
    let rest ← serialPorts size fuel ports (k + calls.length)
    return calls ++ rest

/-- `serial_write`, with the same bound on the turns for each port. -/
def serialWrite (status : SerialStatus) (text : Text) (fuel : Nat) : Option (List SerialWrite) :=
  if status.available = false then some []
  else serialPorts accepts text.size fuel (List.range status.num) 0

end

/-! ## What arrives -/

/-- The bytes that a call takes from the buffer: from where it asks, as many as the port stores. -/
def SerialWrite.delivered (text : Text) (call : SerialWrite) : List UInt8 :=
  text.string.slice call.position.toNat call.accepted.toNat

/-- What a port has taken in some calls. -/
def received (text : Text) (port : Nat) (calls : List SerialWrite) : List UInt8 :=
  (calls.filter fun call => call.port = port).flatMap (SerialWrite.delivered text)

theorem received_append (text : Text) (port : Nat) (calls calls' : List SerialWrite) :
    received text port (calls ++ calls')
      = received text port calls ++ received text port calls' := by
  simp [received]

theorem received_of_forall {text : Text} {port : Nat} {calls : List SerialWrite}
    (h : ∀ call ∈ calls, call.port = port) :
    received text port calls = calls.flatMap (SerialWrite.delivered text) := by
  rw [received, List.filter_eq_self.mpr fun call hcall => decide_eq_true (h call hcall)]

theorem received_of_forall_ne {text : Text} {port : Nat} {calls : List SerialWrite}
    (h : ∀ call ∈ calls, call.port ≠ port) : received text port calls = [] := by
  rw [received, List.filter_eq_nil_iff.mpr fun call hcall => by simpa using h call hcall]
  rfl

/-- A call that asks for what is behind `done`, and for all of it. -/
def SerialWrite.AsksBehind (text : Text) (done : List UInt8) (call : SerialWrite) : Prop :=
  call.position.toNat = done.length ∧
    call.position.toNat + call.asked.toNat = text.string.length ∧
    done ++ text.string.slice call.position.toNat call.asked.toNat = text.string.bytes

/-- Calls for one port that deliver `rest`, when `done` has been delivered. -/
structure Delivers (text : Text) (port : Nat) (done rest : List UInt8)
    (calls : List SerialWrite) : Prop where
  port : ∀ call ∈ calls, call.port = port
  delivered : calls.flatMap (SerialWrite.delivered text) = rest
  asks : ∀ pre call post, calls = pre ++ call :: post →
    call.AsksBehind text (done ++ pre.flatMap (SerialWrite.delivered text))

/-- What has been delivered and what has not are the string. -/
theorem slice_rest {text : Text} {done rest : List UInt8} (h : text.string.bytes = done ++ rest)
    (n : Nat) : text.string.slice done.length n = rest.take n := by
  rw [CString.slice, h, List.drop_left]

theorem Delivers.nil (text : Text) (port : Nat) (done : List UInt8) :
    Delivers text port done [] [] where
  port := by simp
  delivered := rfl
  asks := by simp

/-- One more call in front. -/
theorem Delivers.cons {text : Text} {port : Nat} {done rest rest' : List UInt8}
    {call : SerialWrite} {calls : List SerialWrite} (hport : call.port = port)
    (hasks : call.AsksBehind text done) (hrest : call.delivered text ++ rest' = rest)
    (h : Delivers text port (done ++ call.delivered text) rest' calls) :
    Delivers text port done rest (call :: calls) where
  port := List.forall_mem_cons.mpr ⟨hport, h.port⟩
  delivered := by rw [List.flatMap_cons, h.delivered, hrest]
  asks := by
    intro pre c post heq
    cases pre with
    | nil =>
        obtain ⟨rfl, rfl⟩ := List.cons.inj heq
        simpa using hasks
    | cons p pre =>
        rw [List.cons_append] at heq
        obtain ⟨rfl, htail⟩ := List.cons.inj heq
        have hc := h.asks pre c post htail
        rwa [List.append_assoc, ← List.flatMap_cons] at hc

/-! ## One port -/

/-- **The loop for one port** ends, after at most one turn for each byte that is left, and it
delivers just these bytes. -/
theorem serialPortLoop_ok {text : Text} {accepts : Accepts} (h : Obliging accepts) (port k : Nat)
    {done rest : List UInt8} (hbytes : text.string.bytes = done ++ rest) {remain : UInt64}
    (hremain : remain.toNat = rest.length) :
    ∃ calls, Delivers text port done rest calls ∧ ∀ fuel, rest.length < fuel →
      serialPortLoop accepts port text.size fuel k remain = some calls := by
  induction hn : rest.length using Nat.strongRecOn generalizing k done rest remain with
  | ind n ih =>
      subst hn
      by_cases h0 : remain = 0
      · obtain rfl : rest = [] := by
          apply List.length_eq_zero_iff.mp
          rw [← hremain, h0]
          rfl
        refine ⟨[], Delivers.nil text port done, ?_⟩
        intro fuel hfuel
        obtain ⟨fuel, rfl⟩ := Nat.exists_eq_succ_of_ne_zero (Nat.ne_of_gt hfuel)
        rw [serialPortLoop, if_pos h0]
      · -- the call asks for all of `rest`, and some of it is taken
        obtain ⟨hpos, hle⟩ := h k remain h0
        rw [UInt64.le_iff_toNat_le] at hpos hle
        have hone : 1 ≤ (accepts k remain).toNat := hpos
        have hlen : text.string.length = done.length + rest.length := by
          rw [CString.length, hbytes, List.length_append]
        have hposition : (text.size - remain).toNat = done.length := by
          rw [UInt64.toNat_sub_of_le, text.size_toNat]
          · omega
          · rw [UInt64.le_iff_toNat_le, text.size_toNat]
            omega
        have hleft : (remain - accepts k remain).toNat
            = (rest.drop (accepts k remain).toNat).length := by
          rw [UInt64.toNat_sub_of_le _ _ (UInt64.le_iff_toNat_le.mpr hle), List.length_drop,
            hremain]
        generalize hcall : (⟨port, text.size - remain, remain, accepts k remain⟩ : SerialWrite)
          = call
        have hdelivered : call.delivered text = rest.take (accepts k remain).toNat := by
          rw [← hcall, SerialWrite.delivered]
          show text.string.slice (text.size - remain).toNat (accepts k remain).toNat = _
          rw [hposition, slice_rest hbytes]
        have hasks : call.AsksBehind text done := by
          rw [← hcall]
          refine ⟨hposition, ?_, ?_⟩
          · show (text.size - remain).toNat + remain.toNat = _
            omega
          · show done ++ text.string.slice (text.size - remain).toNat remain.toNat = _
            rw [hposition, slice_rest hbytes, hremain, List.take_length, hbytes]
        have hrest : (rest.drop (accepts k remain).toNat).length < rest.length := by
          rw [List.length_drop]
          omega
        have hbytes' : text.string.bytes = (done ++ rest.take (accepts k remain).toNat)
            ++ rest.drop (accepts k remain).toNat := by
          rw [List.append_assoc, List.take_append_drop, hbytes]
        obtain ⟨calls, hcalls, hloop⟩ := ih _ hrest (k + 1) hbytes' hleft rfl
        rw [← hdelivered] at hcalls
        refine ⟨call :: calls, Delivers.cons (by rw [← hcall]) hasks ?_ hcalls, ?_⟩
        · rw [hdelivered, List.take_append_drop]
        · intro fuel hfuel
          obtain ⟨fuel, rfl⟩ := Nat.exists_eq_succ_of_ne_zero (Nat.ne_zero_of_lt hfuel)
          rw [serialPortLoop, if_neg h0]
          dsimp only
          rw [hloop fuel (by omega), hcall]
          rfl

/-! ## All ports -/

/-- What `serial_write` is to do: every port gets the string, and every call asks for just what its
port has not got yet. -/
structure DeliversAll (text : Text) (ports : List Nat) (calls : List SerialWrite) : Prop where
  received : ∀ port ∈ ports, received text port calls = text.string.bytes
  asks : ∀ pre call post, calls = pre ++ call :: post → call.port ∈ ports ∧
    call.AsksBehind text (Interaction.received text call.port pre)

/-- The calls for one port in front of those for others. -/
theorem DeliversAll.cons {text : Text} {port : Nat} {ports : List Nat} (hport : port ∉ ports)
    {calls rest : List SerialWrite} (h : Delivers text port [] text.string.bytes calls)
    (hrest : DeliversAll text ports rest) : DeliversAll text (port :: ports) (calls ++ rest) where
  received := by
    intro q hq
    have hothers : ∀ call ∈ rest, call.port ∈ ports := by
      intro call hcall
      obtain ⟨pre, post, heq⟩ := List.append_of_mem hcall
      exact (hrest.asks pre call post heq).1
    rw [received_append]
    by_cases hqport : q = port
    · rw [hqport, received_of_forall h.port, h.delivered, received_of_forall_ne, List.append_nil]
      intro call hcall heq
      exact hport (heq ▸ hothers call hcall)
    · have hmem := (List.mem_cons.mp hq).resolve_left hqport
      rw [hrest.received q hmem, received_of_forall_ne, List.nil_append]
      intro call hcall heq
      exact hqport (heq.symm.trans (h.port call hcall))
  asks := by
    intro pre call post heq
    rcases List.append_eq_append_iff.mp heq with ⟨more, hpre, hrest'⟩ | ⟨more, hcalls, hpost⟩
    · -- the call is for one of the other ports
      obtain ⟨hmem, hasks⟩ := hrest.asks more call post hrest'
      refine ⟨List.mem_cons_of_mem port hmem, ?_⟩
      rw [hpre, received_append, received_of_forall_ne, List.nil_append]
      · exact hasks
      · intro c hc hcport
        rw [h.port c hc] at hcport
        exact hport (hcport ▸ hmem)
    · cases more with
      | nil =>
          rw [List.append_nil] at hcalls
          obtain ⟨hmem, hasks⟩ := hrest.asks [] call post hpost.symm
          refine ⟨List.mem_cons_of_mem port hmem, ?_⟩
          rw [← hcalls, received_of_forall_ne]
          · exact hasks
          · intro c hc hcport
            rw [h.port c hc] at hcport
            exact hport (hcport ▸ hmem)
      | cons c more =>
          obtain ⟨rfl, -⟩ := List.cons.inj hpost
          have hcall : call.port = port := h.port call (by simp [hcalls])
          refine ⟨by simp [hcall], ?_⟩
          rw [hcall, received_of_forall]
          · exact h.asks pre call more hcalls
          · exact fun c hc => h.port c (by simp [hcalls, hc])

theorem serialPorts_ok (text : Text) {accepts : Accepts} (h : Obliging accepts)
    {ports : List Nat} (hports : ports.Nodup) (k : Nat) :
    ∃ calls, DeliversAll text ports calls ∧ ∀ fuel, text.string.length < fuel →
      serialPorts accepts text.size fuel ports k = some calls := by
  induction ports generalizing k with
  | nil => exact ⟨[], ⟨by simp, by simp⟩, fun fuel _ => rfl⟩
  | cons port ports ih =>
      rw [List.nodup_cons] at hports
      obtain ⟨calls, hcalls, hloop⟩ := serialPortLoop_ok h port k
        (List.nil_append text.string.bytes).symm text.size_toNat
      obtain ⟨rest, hrest, hloops⟩ := ih hports.2 (k + calls.length)
      refine ⟨calls ++ rest, DeliversAll.cons hports.1 hcalls hrest, ?_⟩
      intro fuel hfuel
      rw [serialPorts, hloop fuel hfuel, Option.bind_eq_bind, Option.bind_some, hloops fuel hfuel]
      rfl

end LoliLoader.Interaction
