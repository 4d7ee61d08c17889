/-
# LoliLoader.Interaction.Output -- console output of src/interaction.c

Three buffers are allocated once, and every call fills them one after the other: the formatted text,
the text with converted line ends, and that in wide characters.

None of the functions that fill them is told a size. `vsprintf` stores its text and the end; the
loop of `puts_internal` stores two characters for a line end; `str2wcs` stores a wide character for
each. All three buffers have the same number of elements, so it is the second one that is overrun
first, and `fits_iff` says when: the converted text has to be shorter than the buffer.

`put_ok_iff` is about any buffers of the right sizes, with any contents. So whether a call stays
inside does not depend on the calls before it, and a sequence of calls stays inside if each of them
does.

What the devices do with the buffers is not part of this module, they only read them. It follows in
`Interaction.Delivery`. Neither are the conversions for debug output, which is compiled out.
-/
import LoliLoader.C.Format
import LoliLoader.C.String

namespace LoliLoader.Interaction

open C

/-! ## The buffers -/

/-- A block of wide characters. -/
abbrev WideBuffer := Array UInt16

/-- A store of one wide character, checked against the size of the block. -/
def WideBuffer.store (b : WideBuffer) (i : Nat) (c : UInt16) : Except Fault WideBuffer :=
  if h : i < b.size then .ok (b.set i c h) else .error (.write i)

/-- The three buffers of the console, which are allocated once and used by all calls. -/
structure Buffers where
  gFormatBuf : Buffer
  gLineEndConvertBuf : Buffer
  gWideCharBuf : WideBuffer

/-- `interaction_init`, with what is in the memory that `malloc` returns. -/
def interactionInit (format lineEnd : Nat → UInt8) (wide : Nat → UInt16) : Buffers where
  gFormatBuf := ((List.range 1024).map format).toArray
  gLineEndConvertBuf := ((List.range 1024).map lineEnd).toArray
  gWideCharBuf := ((List.range 1024).map wide).toArray

/-- The buffers have the sizes they were allocated with; what is in them is left open. -/
structure Buffers.Allocated (bufs : Buffers) : Prop where
  format : bufs.gFormatBuf.size = 1024
  lineEnd : bufs.gLineEndConvertBuf.size = 1024
  wide : bufs.gWideCharBuf.size = 1024

theorem allocated_interactionInit (format lineEnd : Nat → UInt8) (wide : Nat → UInt16) :
    (interactionInit format lineEnd wide).Allocated := by
  refine ⟨?_, ?_, ?_⟩ <;>
    rw [interactionInit, List.size_toArray, List.length_map, List.length_range]

/-- `gSerialAvailable` and `gGraphicsAvailable`: the devices to which text is sent. Without any, it
is sent to `conOut`. -/
structure Devices where
  serial : Bool
  graphics : Bool
  deriving DecidableEq, Repr

/-! ## Calls -/

/-- The loop of `puts_internal`, with `src` at `p` and `dst` at `q`. -/
def convertLineEnds (src dst : Buffer) (p q : Nat) : Except Fault Buffer :=
  if _h : p < src.size then
    let c := src[p]
    if c = 0 then dst.store q 0
    else if c = 10 then do
      let dst ← dst.store q 13
      let dst ← dst.store (q + 1) c
      convertLineEnds src dst (p + 1) (q + 2)
    else do
      let dst ← dst.store q c
      convertLineEnds src dst (p + 1) (q + 1)
  else .error (.read p)
termination_by src.size - p

section

variable (ck : CharKind)

/-- The loop of `str2wcs`, into a buffer, up to the terminator of the text. -/
def str2wcsLoop (wcs : WideBuffer) (str : Buffer) (p : Nat) : Except Fault WideBuffer :=
  if _h : p < str.size then
    let c := str[p]
    if c = 0 then wcs.store p 0
    else do
      let wcs ← wcs.store p (UInt16.ofInt (ck.val c))
      str2wcsLoop wcs str (p + 1)
  else .error (.read p)
termination_by str.size - p

variable (dev : Devices) (bufs : Buffers)

/-- `puts_internal` of `gFormatBuf`. What the devices do with the text is left out: they only
read it. -/
def putsInternal : Except Fault Buffers := do
  let line ← convertLineEnds bufs.gFormatBuf bufs.gLineEndConvertBuf 0 0
  if dev.serial = false ∧ dev.graphics = false then
    let wide ← str2wcsLoop ck bufs.gWideCharBuf line 0
    return { bufs with gLineEndConvertBuf := line, gWideCharBuf := wide }
  return { bufs with gLineEndConvertBuf := line }

/-- `puts_sized` of the bytes `s`: they are copied to the format buffer, with a terminator behind
them, and put from there. -/
def putsSized (s : List UInt8) : Except Fault Buffers := do
  let format ← bufs.gFormatBuf.storeBytes 0 s
  let format ← format.store s.length 0
  putsInternal ck dev { bufs with gFormatBuf := format }

/-- `printf`: the message is formatted in the format buffer, and put from there. -/
def printf (format : String) (args : List Arg) : Except Fault Buffers := do
  let text ← vsprintf bufs.gFormatBuf (ascii format) args
  putsInternal ck dev { bufs with gFormatBuf := text }

/-- A call that writes to the console, as far as the buffers are concerned. -/
def put : Output → Except Fault Buffers
  | .printf format args => printf ck dev bufs format args
  | .putsSized s => putsSized ck dev bufs s

end

/-- The call stays inside the buffers, whatever is in them. -/
def Fits (o : Output) : Prop :=
  ∀ ck dev bufs, bufs.Allocated → ∃ bufs', put ck dev bufs o = .ok bufs' ∧ bufs'.Allocated

/-! ## What they write -/

/-- A text with converted line ends: each newline gets a carriage return in front of it. -/
def lineEnds (text : List UInt8) : List UInt8 :=
  text.flatMap fun c => if c = 10 then [13, 10] else [c]

/-- The text that a call formats, if its arguments are those that its format asks for. -/
def textOf : Output → Option (List UInt8)
  | .printf format args => (directives (ascii format)).bind fun ds => formatText .ten ds args
  | .putsSized s => some s

theorem lineEnds_append (s t : List UInt8) : lineEnds (s ++ t) = lineEnds s ++ lineEnds t :=
  List.flatMap_append

theorem lineEnds_cons (c : UInt8) (t : List UInt8) :
    lineEnds (c :: t) = (if c = 10 then [13, 10] else [c]) ++ lineEnds t := rfl

theorem length_le_lineEnds (t : List UInt8) : t.length ≤ (lineEnds t).length := by
  induction t with
  | nil => exact Nat.le_refl _
  | cons c t ih =>
      rw [lineEnds_cons, List.length_append, List.length_cons]
      split <;> simp only [List.length_cons, List.length_nil] <;> omega

/-- A text without line ends stays as it is. -/
theorem lineEnds_of_notMem {t : List UInt8} (h : (10 : UInt8) ∉ t) : lineEnds t = t := by
  induction t with
  | nil => rfl
  | cons c t ih =>
      rw [List.mem_cons, not_or] at h
      rw [lineEnds_cons, if_neg (Ne.symm h.1), ih h.2]
      rfl

section

variable {src dst : Buffer} {done rest out : List UInt8}

/-- What is read at the end of what has been read. -/
theorem begins_get {c : UInt8} (h : Begins src (done ++ c :: rest)) :
    ∃ hlt : done.length < src.size, src[done.length] = c := by
  have hlt : done.length < src.size := by
    have hle := h.length_le
    rw [List.length_append, List.length_cons] at hle
    omega
  have hget := h done.length (by rw [List.length_append, List.length_cons]; omega)
  rw [Array.getElem?_eq_getElem hlt, List.getElem?_append_right (Nat.le_refl _), Nat.sub_self,
    List.getElem?_cons_zero] at hget
  exact ⟨hlt, Option.some.inj hget⟩

/-- **The conversion of line ends**, when there is room for the converted text and its end: the
destination starts with both. -/
theorem convertLineEnds_ok (hsrc : Begins src (done ++ (rest ++ [0]))) (h0 : (0 : UInt8) ∉ rest)
    (hdst : Begins dst out) (hroom : out.length + (lineEnds rest).length < dst.size) :
    ∃ m, convertLineEnds src dst done.length out.length = .ok m ∧ m.size = dst.size ∧
      Begins m (out ++ (lineEnds rest ++ [0])) := by
  induction rest generalizing done dst out with
  | nil =>
      obtain ⟨hlt, hget⟩ := begins_get hsrc
      rw [convertLineEnds, dif_pos hlt]
      dsimp only
      rw [if_pos hget]
      exact hdst.store 0 hroom
  | cons c rest ih =>
      rw [List.mem_cons, not_or] at h0
      obtain ⟨hlt, hget⟩ := begins_get hsrc
      have hnext : Begins src ((done ++ [c]) ++ (rest ++ [0])) := by
        rw [← List.append_cons]
        exact hsrc
      have hlen : (done ++ [c]).length = done.length + 1 := by
        rw [List.length_append, List.length_singleton]
      rw [lineEnds_cons, List.length_append] at hroom
      rw [convertLineEnds, dif_pos hlt]
      dsimp only
      rw [hget, if_neg (Ne.symm h0.1), lineEnds_cons]
      by_cases hc : c = 10
      · rw [if_pos hc] at hroom ⊢
        rw [if_pos hc]
        simp only [List.length_cons, List.length_nil] at hroom
        obtain ⟨m₁, hm₁, hsize₁, hbegins₁⟩ := hdst.store 13 (by omega)
        obtain ⟨m₂, hm₂, hsize₂, hbegins₂⟩ := hbegins₁.store c
          (by rw [List.length_append, List.length_singleton]; omega)
        obtain ⟨m, hm, hsize, hbegins⟩ := ih hnext h0.2 hbegins₂
          (by simp only [List.length_append, List.length_singleton]; omega)
        simp only [List.length_append, List.length_singleton] at hm hm₂
        refine ⟨m, bind_eq_ok.mpr ⟨m₁, hm₁, bind_eq_ok.mpr ⟨m₂, hm₂, hm⟩⟩, by omega, ?_⟩
        rw [hc] at hbegins
        simpa using hbegins
      · rw [if_neg hc] at hroom ⊢
        rw [if_neg hc]
        simp only [List.length_singleton] at hroom
        obtain ⟨m₁, hm₁, hsize₁, hbegins₁⟩ := hdst.store c (by omega)
        obtain ⟨m, hm, hsize, hbegins⟩ := ih hnext h0.2 hbegins₁
          (by rw [List.length_append, List.length_singleton]; omega)
        rw [hlen, List.length_append, List.length_singleton] at hm
        refine ⟨m, bind_eq_ok.mpr ⟨m₁, hm₁, hm⟩, by omega, ?_⟩
        simpa using hbegins

/-- The end of the converted text must have been inside the buffer. -/
theorem lt_of_convertLineEnds {q : Nat} {m : Buffer} (hsrc : Begins src (done ++ (rest ++ [0])))
    (h0 : (0 : UInt8) ∉ rest) (h : convertLineEnds src dst done.length q = .ok m) :
    q + (lineEnds rest).length < dst.size := by
  induction rest generalizing done dst q with
  | nil =>
      obtain ⟨hlt, hget⟩ := begins_get hsrc
      rw [convertLineEnds, dif_pos hlt] at h
      dsimp only at h
      rw [if_pos hget] at h
      exact (store_inv h).1
  | cons c rest ih =>
      rw [List.mem_cons, not_or] at h0
      obtain ⟨hlt, hget⟩ := begins_get hsrc
      have hnext : Begins src ((done ++ [c]) ++ (rest ++ [0])) := by
        rw [← List.append_cons]
        exact hsrc
      have hlen : (done ++ [c]).length = done.length + 1 := by
        rw [List.length_append, List.length_singleton]
      rw [convertLineEnds, dif_pos hlt] at h
      dsimp only at h
      rw [hget, if_neg (Ne.symm h0.1)] at h
      rw [lineEnds_cons, List.length_append]
      by_cases hc : c = 10
      · rw [if_pos hc] at h ⊢
        obtain ⟨m₁, hm₁, h⟩ := bind_eq_ok.mp h
        obtain ⟨m₂, hm₂, h⟩ := bind_eq_ok.mp h
        have hlt := ih hnext h0.2 (by rw [hlen]; exact h)
        rw [(store_inv hm₂).2.size, (store_inv hm₁).2.size] at hlt
        simp only [List.length_cons, List.length_nil]
        omega
      · rw [if_neg hc] at h ⊢
        obtain ⟨m₁, hm₁, h⟩ := bind_eq_ok.mp h
        have hlt := ih hnext h0.2 (by rw [hlen]; exact h)
        rw [(store_inv hm₁).2.size] at hlt
        rw [List.length_singleton]
        omega

/-- The conversion to wide characters, when there is room. -/
theorem str2wcsLoop_ok (ck : CharKind) {wcs : WideBuffer}
    (hsrc : Begins src (done ++ (rest ++ [0]))) (hroom : done.length + rest.length < wcs.size) :
    ∃ m, str2wcsLoop ck wcs src done.length = .ok m ∧ m.size = wcs.size := by
  induction rest generalizing done wcs with
  | nil =>
      obtain ⟨hlt, hget⟩ := begins_get hsrc
      rw [str2wcsLoop, dif_pos hlt]
      dsimp only
      rw [if_pos hget, WideBuffer.store, dif_pos (by simpa using hroom)]
      exact ⟨_, rfl, Array.size_set _⟩
  | cons c rest ih =>
      obtain ⟨hlt, hget⟩ := begins_get hsrc
      rw [List.length_cons] at hroom
      rw [str2wcsLoop, dif_pos hlt]
      dsimp only
      rw [hget, WideBuffer.store, WideBuffer.store, dif_pos (by omega), dif_pos (by omega)]
      by_cases hc : c = 0
      · rw [if_pos hc]
        exact ⟨_, rfl, Array.size_set _⟩
      · have hnext : Begins src ((done ++ [c]) ++ (rest ++ [0])) := by
          rw [← List.append_cons]
          exact hsrc
        rw [if_neg hc]
        obtain ⟨m, hm, hsize⟩ := @ih (done ++ [c])
          (wcs.set done.length (UInt16.ofInt (ck.val c)) (by omega)) hnext
          (by rw [List.length_append, List.length_singleton, Array.size_set]; omega)
        rw [List.length_append, List.length_singleton] at hm
        exact ⟨m, hm, hsize.trans (Array.size_set _)⟩

end

/-! ## When a call fits -/

section

variable {ck : CharKind} {dev : Devices} {bufs : Buffers} {t : List UInt8}

/-- **`puts_internal`** stays inside the buffers exactly if there is room for the converted text and
its end, whatever the devices are. -/
theorem putsInternal_ok_iff (hbufs : bufs.Allocated) (htext : Begins bufs.gFormatBuf (t ++ [0]))
    (h0 : (0 : UInt8) ∉ t) :
    (∃ bufs', putsInternal ck dev bufs = .ok bufs' ∧ bufs'.Allocated) ↔
      (lineEnds t).length < 1024 := by
  have hempty : Begins bufs.gLineEndConvertBuf [] := by
    intro k hk
    cases hk
  refine ⟨?_, ?_⟩
  · rintro ⟨bufs', h, -⟩
    obtain ⟨line, hline, -⟩ := bind_eq_ok.mp h
    have hlt := @lt_of_convertLineEnds _ _ [] t 0 line htext h0 hline
    rw [hbufs.lineEnd] at hlt
    omega
  · intro hroom
    obtain ⟨line, hline, hsize, hbegins⟩ := @convertLineEnds_ok _ _ [] t [] htext h0 hempty
      (by rw [List.length_nil, hbufs.lineEnd]; omega)
    obtain ⟨wide, hwide, hwsize⟩ := @str2wcsLoop_ok line [] (lineEnds t) ck bufs.gWideCharBuf
      hbegins (by rw [List.length_nil, hbufs.wide]; omega)
    rw [hbufs.lineEnd] at hsize
    rw [hbufs.wide] at hwsize
    by_cases hdev : dev.serial = false ∧ dev.graphics = false
    · refine ⟨{ bufs with gLineEndConvertBuf := line, gWideCharBuf := wide },
        bind_eq_ok.mpr ⟨line, hline, ?_⟩, hbufs.format, hsize, hwsize⟩
      rw [if_pos hdev]
      exact bind_eq_ok.mpr ⟨wide, hwide, rfl⟩
    · refine ⟨{ bufs with gLineEndConvertBuf := line },
        bind_eq_ok.mpr ⟨line, hline, ?_⟩, hbufs.format, hsize, hbufs.wide⟩
      rw [if_neg hdev]
      rfl

/-- **A call stays inside the buffers** exactly if there is room for its text with converted line
ends, and for the end of it. -/
theorem put_ok_iff {o : Output} (hbufs : bufs.Allocated) (ht : textOf o = some t)
    (h0 : (0 : UInt8) ∉ t) :
    (∃ bufs', put ck dev bufs o = .ok bufs' ∧ bufs'.Allocated) ↔ (lineEnds t).length < 1024 := by
  have hle := length_le_lineEnds t
  cases o with
  | printf format args =>
      obtain ⟨ds, hds, htext⟩ := Option.bind_eq_some_iff.mp ht
      obtain ⟨hroom, hdone⟩ := @vsprintf_ok bufs.gFormatBuf _ _ _ _ hds htext
      rw [hbufs.format] at hroom hdone
      have hputs : ∀ m, vsprintf bufs.gFormatBuf (ascii format) args = .ok m →
          ((∃ bufs', putsInternal ck dev { bufs with gFormatBuf := m } = .ok bufs' ∧
            bufs'.Allocated) ↔ (lineEnds t).length < 1024) := by
        intro m hm
        obtain ⟨-, hsize, hbegins⟩ := hdone m hm
        exact putsInternal_ok_iff ⟨hsize, hbufs.lineEnd, hbufs.wide⟩ hbegins h0
      refine ⟨?_, ?_⟩
      · rintro ⟨bufs', h, hbufs'⟩
        obtain ⟨m, hm, h⟩ := bind_eq_ok.mp h
        exact (hputs m hm).mp ⟨bufs', h, hbufs'⟩
      · intro hlt
        obtain ⟨m, hm⟩ := hroom (by omega)
        obtain ⟨bufs', h, hbufs'⟩ := (hputs m hm).mpr hlt
        exact ⟨bufs', bind_eq_ok.mpr ⟨m, hm, h⟩, hbufs'⟩
  | putsSized s =>
      obtain rfl := Option.some.inj ht
      have hempty : Begins bufs.gFormatBuf [] := by
        intro k hk
        cases hk
      -- the bytes, then their end
      have hstored : s.length < 1024 → ∃ m₁ m₂, bufs.gFormatBuf.storeBytes 0 s = .ok m₁ ∧
          m₁.store s.length 0 = .ok m₂ ∧
          ((∃ bufs', putsInternal ck dev { bufs with gFormatBuf := m₂ } = .ok bufs' ∧
            bufs'.Allocated) ↔ (lineEnds s).length < 1024) := by
        intro hlt
        obtain ⟨m₁, hm₁, hsize₁, hbegins₁⟩ := hempty.storeBytes s
          (by rw [List.length_nil, hbufs.format]; omega)
        obtain ⟨m₂, hm₂, hsize₂, hbegins₂⟩ := hbegins₁.store 0
          (by rw [List.nil_append, hsize₁, hbufs.format]; exact hlt)
        refine ⟨m₁, m₂, hm₁, hm₂, putsInternal_ok_iff ⟨?_, hbufs.lineEnd, hbufs.wide⟩ hbegins₂ h0⟩
        rw [hsize₂, hsize₁, hbufs.format]
      refine ⟨?_, ?_⟩
      · rintro ⟨bufs', h, hbufs'⟩
        obtain ⟨m₁, hm₁, h⟩ := bind_eq_ok.mp h
        obtain ⟨m₂, hm₂, h⟩ := bind_eq_ok.mp h
        have hlt := (store_inv hm₂).1
        rw [(storeBytes_inv hm₁).size, hbufs.format] at hlt
        obtain ⟨m₃, m₄, hm₃, hm₄, hputs⟩ := hstored hlt
        obtain rfl := Except.ok.inj (hm₁.symm.trans hm₃)
        obtain rfl := Except.ok.inj (hm₂.symm.trans hm₄)
        exact hputs.mp ⟨bufs', h, hbufs'⟩
      · intro hlt
        obtain ⟨m₁, m₂, hm₁, hm₂, hputs⟩ := hstored (by omega)
        obtain ⟨bufs', h, hbufs'⟩ := hputs.mpr hlt
        exact ⟨bufs', bind_eq_ok.mpr ⟨m₁, hm₁, bind_eq_ok.mpr ⟨m₂, hm₂, h⟩⟩, hbufs'⟩

/-- **When a call fits**: the text it formats, with converted line ends, is shorter than the
buffers. -/
theorem fits_iff {o : Output} (ht : textOf o = some t) (h0 : (0 : UInt8) ∉ t) :
    Fits o ↔ (lineEnds t).length < 1024 := by
  refine ⟨?_, ?_⟩
  · intro h
    have hbufs := allocated_interactionInit (fun _ => 0) (fun _ => 0) fun _ => 0
    exact (put_ok_iff hbufs ht h0).mp (h .signed ⟨false, false⟩ _ hbufs)
  · intro hlt ck dev bufs hbufs
    exact (put_ok_iff hbufs ht h0).mpr hlt

end

end LoliLoader.Interaction
