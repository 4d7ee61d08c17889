/-
# LoliLoader.Extlinux.RoundTrip -- a document is read back

However a document is written, the parser gives it back: the entries one by one, and the value of
each setting in its entry or among the global options.

`Reads` is what a caller of the library sees. There are as many entries as the document has,
reported in its order; at each of them the label and every setting are read with the value they were
given, and a key that the entry does not have is not found.

For the global options this holds only if there are any. A document that starts with an entry, when
it is asked for a global option, gives that of its first entry, since its pointer cannot be told
from the entry's own (`Extlinux.Lookup`). `Reads.globals` has this as a condition, and nothing is
claimed without it.

Keys must not be ambiguous among the settings that are searched together. Without that the first
line that continues the key is found, which need not be the one that was meant.

`document_roundTrip` has two parts: a document is read back from its own text, and from any other
text that is written for it.
-/
import LoliLoader.Extlinux.Document
import Mathlib.Data.List.Forall2

namespace LoliLoader.Extlinux

open Text C

/-! ## Reading -/

/-- The bytes that `extlinux_get_value` points at. -/
def readValue (cfg : CString) (p : Nat) (key : CString) : Except Fault (Option (List UInt8)) := do
  let value ← extlinuxGetValue cfg p key
  return value.map fun v => cfg.slice v.1 v.2

/-- The settings are read from a pointer: each key that is not ambiguous has the value of its first
setting there, or is not found if there is none. -/
def ReadsSettings (cfg : CString) (p : Nat) (settings : List Setting) : Prop :=
  ∀ K : Key, K.first.bytes ≠ ascii "label" → Unambiguous K settings →
    readValue cfg p K.cstring = .ok ((findSetting K.tokens settings).map Value.bytes)

/-- **The document is read back** from the configuration: the entries in their order, each with its
label and its settings, and the global settings if there are any. -/
structure Reads (cfg : CString) (d : Document) : Prop where
  globals : d.globals ≠ [] → ReadsSettings cfg 0 d.globals
  entries : ∃ ps, Enumerates cfg none ps ∧ List.Forall₂ (fun e p =>
    readValue cfg p labelKey = .ok (some e.label.bytes) ∧ ReadsSettings cfg p e.settings)
    d.entries ps

section

variable {cfg : CString} {p : Nat} {tokens : List (List UInt8)}

/-- The bytes are those of the line that is found. -/
theorem readValue_of_find {key : CString} {ls : List Line} (hls : ∀ l ∈ ls, l ∈ lines cfg)
    (h : extlinuxGetValue cfg p key = .ok ((findPair tokens ls).map (pairSlice tokens))) :
    readValue cfg p key = .ok ((findPair tokens ls).map fun l => pairValue tokens l.line) := by
  rw [readValue, h]
  show Except.ok _ = Except.ok _
  rw [Option.map_map]
  cases hfind : findPair tokens ls with
  | none => rfl
  | some l =>
      obtain ⟨t, hline⟩ := lineAt_of_mem (hls l (List.mem_of_find?_eq_some hfind))
      have hslice := hline.slice tokens
      rw [Option.map_some, Option.map_some]
      exact congrArg (fun v => Except.ok (some v)) hslice

/-! ## Where the entries are -/

/-- An entry is written at a line and behind it, up to the next label. -/
def EntryAt (all : List Line) (e : Entry) (l : Line) : Prop :=
  ∃ pre body post, all = pre ++ l :: (body ++ post) ∧ Spells labelTokens e.label l.line ∧
    WritesSettings e.settings (body.map Located.line) ∧ ∀ l' ∈ post.head?, isLabel l'

theorem EntryAt.append {all : List Line} {e : Entry} {l : Line} (h : EntryAt all e l)
    (front : List Line) : EntryAt (front ++ all) e l := by
  obtain ⟨pre, body, post, rfl, hrest⟩ := h
  exact ⟨front ++ pre, body, post, by simp, hrest⟩

/-- The lines with labels are those of the entries. -/
theorem entries_located {es : List Entry} {ls : List Line}
    (h : WritesEntries es (ls.map Located.line)) :
    (∀ l ∈ ls.head?, isLabel l) ∧
      List.Forall₂ (EntryAt ls) es (ls.filter fun l => isLabel l) := by
  generalize htexts : ls.map Located.line = texts at h
  induction h generalizing ls with
  | nil =>
      obtain rfl := List.map_eq_nil_iff.mp htexts
      exact ⟨by simp, List.Forall₂.nil⟩
  | @entry e es _ _ _ hspells hsettings _ ih =>
      obtain ⟨l, rest, rfl, rfl, hrest⟩ := List.map_eq_cons_iff.mp htexts
      obtain ⟨body, post, rfl, rfl, hpost⟩ := List.map_eq_append_iff.mp hrest
      obtain ⟨hhead, hentries⟩ := ih hpost
      have hlabel : isLabel l := hspells.isPair
      refine ⟨fun l' hl' => Option.some.inj hl' ▸ hlabel, ?_⟩
      rw [List.filter_cons_of_pos (by simpa using hlabel), List.filter_append,
        filter_settings hsettings, List.nil_append]
      refine List.Forall₂.cons ⟨[], body, post, rfl, hspells, hsettings, hhead⟩ ?_
      exact hentries.imp fun e' l' h' => by
        have happend := h'.append (l :: body)
        rwa [List.cons_append] at happend

/-- **An entry** is read from its line: its label, and the settings behind it up to the next
label. -/
theorem EntryAt.reads {e : Entry} {l : Line} (h : EntryAt (lines cfg) e l) :
    readValue cfg (firstPlain l) labelKey = .ok (some e.label.bytes) ∧
      ReadsSettings cfg (firstPlain l) e.settings := by
  obtain ⟨pre, body, post, hall, hspells, hsettings, hpost⟩ := h
  have hmem : l ∈ lines cfg := by
    rw [hall]
    simp
  have hlabel : l ∈ labelLines cfg :=
    List.mem_filter.mpr ⟨hmem, decide_eq_true (show isLabel l from hspells.isPair)⟩
  refine ⟨?_, fun K hK hunambiguous => ?_⟩
  · have hfind : findPair labelTokens [l] = some l := by
      rw [findPair_cons, if_pos hspells.isPair]
    have hget : extlinuxGetValue cfg (firstPlain l) labelKey
        = .ok ((findPair labelTokens [l]).map (pairSlice labelTokens)) := by
      rw [extlinuxGetValue_entry_label hlabel, hfind]
      rfl
    rw [readValue_of_find (List.forall_mem_singleton.mpr hmem) hget, hfind, Option.map_some,
      hspells.pairValue]
  · have hafter : linesAfter cfg (firstPlain l) = body ++ post :=
      dropWhile_start_of_split hall (start_le_firstPlain l) (firstPlain_le l)
    have hblock : block cfg (firstPlain l) = body := by
      rw [block, hafter, untilLabel_settings hsettings hpost]
    have hget := extlinuxGetValue_entry hlabel hK
    rw [hblock] at hget
    have hbody : ∀ l' ∈ body, l' ∈ lines cfg := by
      intro l' hl'
      rw [hall]
      simp [hl']
    rw [readValue_of_find hbody hget, findPair_settings hunambiguous hsettings]

theorem WritesSettings.eq_nil {ss : List Setting} (h : WritesSettings ss []) : ss = [] := by
  cases h
  rfl

/-- The global options are read from the start. -/
theorem reads_globals {settings : List Setting} {gs es : List Line} (hall : lines cfg = gs ++ es)
    (hne : gs ≠ []) (hsettings : WritesSettings settings (gs.map Located.line))
    (hes : ∀ l ∈ es.head?, isLabel l) : ReadsSettings cfg 0 settings := by
  intro K hK hunambiguous
  obtain ⟨l, gs', rfl⟩ := List.exists_cons_of_ne_nil hne
  have hnot : ¬ atLabel l :=
    fun hat => hsettings.not_isLabel List.mem_cons_self hat.2
  have hsearched : searched (lines cfg) = l :: gs' := by
    rw [hall, List.cons_append, searched, if_neg hnot, ← List.cons_append,
      untilLabel_settings hsettings hes]
  have hget := extlinuxGetValue_at hK (CString.At.zero cfg)
  change _ = Except.ok ((findPair K.tokens (searched (lines cfg))).map _) at hget
  rw [hsearched] at hget
  have hlines : ∀ l' ∈ l :: gs', l' ∈ lines cfg := by
    intro l' hl'
    rw [hall]
    exact List.mem_append_left es hl'
  rw [readValue_of_find hlines hget, findPair_settings hunambiguous hsettings]

/-- **However a document is written**, it is read back; the lines may have any layout that `Writes`
permits. -/
theorem reads_of_writes {d : Document} (h : Writes d ((lines cfg).map Located.line)) :
    Reads cfg d := by
  obtain ⟨gs, es, hlines, hglobals, hentries⟩ := h
  obtain ⟨gs, es, hall, rfl, rfl⟩ := List.map_eq_append_iff.mp hlines
  obtain ⟨hhead, hlocated⟩ := entries_located hentries
  refine ⟨fun hne => reads_globals hall ?_ hglobals hhead, entryPositions cfg,
    enumerates_entryPositions cfg, ?_⟩
  · rintro rfl
    exact hne hglobals.eq_nil
  · have hlabels : labelLines cfg = es.filter fun l => isLabel l := by
      rw [labelLines, hall, List.filter_append, filter_settings hglobals, List.nil_append]
    rw [entryPositions, hlabels, List.forall₂_map_right_iff]
    refine hlocated.imp fun e l hl => ?_
    have happend := hl.append gs
    rw [← hall] at happend
    exact happend.reads

end

/-! ## Printing -/

section

variable {rest : List UInt8}

/-- A key is its tokens, with blanks between them. -/
theorem spaced_key (K : Key) {g : List UInt8} (hne : g ≠ []) (hg : ∀ c ∈ g, isBlank c = true) :
    Spaced isBlank rest K.tokens (K.bytes ++ (g ++ rest)) := by
  obtain ⟨first, more⟩ := K
  induction more generalizing first with
  | nil =>
      rw [Key.bytes, List.flatMap_nil, List.append_nil]
      exact .cons first.ne_nil (fun c hc => (first.plain c hc).1) hne hg .nil
  | cons gt more ih =>
      have hbytes : (Key.mk first (gt :: more)).bytes ++ (g ++ rest)
          = first.bytes ++ (gt.1.bytes ++ ((Key.mk gt.2 more).bytes ++ (g ++ rest))) := by
        simp [Key.bytes]
      rw [hbytes]
      exact .cons first.ne_nil (fun c hc => (first.plain c hc).1) gt.1.ne_nil gt.1.blank (ih gt.2)

theorem isBlank_space : ∀ c ∈ [space], isBlank c = true :=
  List.forall_mem_singleton.mpr rfl

/-- A key and a value, with a space between them. -/
theorem spells_line (K : Key) (v : Value) :
    Spells K.tokens v (K.bytes ++ ([space] ++ v.bytes)) := by
  refine ⟨[], K.bytes ++ ([space] ++ v.bytes), [], rfl, by simp, by simp, ?_⟩
  rw [List.append_nil]
  exact spaced_key K (by simp) isBlank_space

end

/-- The line of a setting, in the layout of the round trip: one space between the key and the
value. -/
def Setting.text (s : Setting) : List UInt8 := s.key.bytes ++ ([space] ++ s.value.bytes)

/-- The lines of an entry: that of its label, and then one for each setting. -/
def Entry.texts (e : Entry) : List (List UInt8) :=
  (ascii "label" ++ ([space] ++ e.label.bytes)) :: e.settings.map Setting.text

/-- The lines of a document: the global settings first, since behind an entry they would belong to
that. -/
def Document.texts (d : Document) : List (List UInt8) :=
  d.globals.map Setting.text ++ d.entries.flatMap Entry.texts

theorem writesSettings_text (ss : List Setting) : WritesSettings ss (ss.map Setting.text) := by
  induction ss with
  | nil => exact .nil
  | cons s ss ih => exact .setting (spells_line s.key s.value) ih

theorem writesEntries_texts (es : List Entry) : WritesEntries es (es.flatMap Entry.texts) := by
  induction es with
  | nil => exact .nil
  | cons e es ih =>
      exact .entry (spells_line ⟨labelToken, []⟩ e.label) (writesSettings_text e.settings) ih

section

variable {b : List UInt8} (hb : ∀ c ∈ b, isBlank c = true)

include hb

theorem WritesSettings.append_blank {ss : List Setting} {ls : List (List UInt8)}
    (h : WritesSettings ss ls) : WritesSettings ss (ls ++ [b]) := by
  induction h with
  | nil => exact .blank hb .nil
  | blank hblank _ ih => exact .blank hblank ih
  | setting hspells _ ih => exact .setting hspells ih

/-- The last entry goes on. -/
theorem WritesEntries.append_blank {es : List Entry} {ls : List (List UInt8)}
    (h : WritesEntries es ls) (hne : es ≠ []) : WritesEntries es (ls ++ [b]) := by
  induction h with
  | nil => exact absurd rfl hne
  | @entry e es l ls ls' hspells hsettings hrest ih =>
      cases hrest with
      | nil =>
          have hlast := WritesEntries.entry hspells (hsettings.append_blank hb) .nil
          simpa using hlast
      | entry hspells' hsettings' hrest' =>
          have hmore := WritesEntries.entry hspells hsettings (ih (by simp))
          simpa using hmore

/-- A line of blanks at the end changes nothing. -/
theorem Writes.append_blank {d : Document} {ls : List (List UInt8)} (h : Writes d ls) :
    Writes d (ls ++ [b]) := by
  obtain ⟨gs, es, rfl, hglobals, hentries⟩ := h
  by_cases hne : d.entries = []
  · rw [hne] at hentries
    cases hentries with
    | nil =>
        refine ⟨gs ++ [b], [], by simp, hglobals.append_blank hb, ?_⟩
        rw [hne]
        exact .nil
  · exact ⟨gs, es ++ [b], by simp, hglobals, hentries.append_blank hb hne⟩

end

theorem writes_texts (d : Document) : Writes d d.texts :=
  ⟨_, _, rfl, writesSettings_text d.globals, writesEntries_texts d.entries⟩

/-! ## The text -/

/-- The characters of a line: neither newline nor terminator. -/
def Plain (l : List UInt8) : Prop := newline ∉ l ∧ (0 : UInt8) ∉ l

instance (l : List UInt8) : Decidable (Plain l) :=
  inferInstanceAs (Decidable (newline ∉ l ∧ (0 : UInt8) ∉ l))

theorem plain_append {l l' : List UInt8} : Plain (l ++ l') ↔ Plain l ∧ Plain l' := by
  simp only [Plain, List.mem_append, not_or]
  tauto

theorem plain_key (K : Key) : Plain K.bytes := by
  refine ⟨fun h => ?_, K.nul_notMem⟩
  rcases List.mem_append.mp h with h | h
  · exact (K.first.plain newline h).2.1 rfl
  · obtain ⟨⟨g, t⟩, -, h⟩ := List.mem_flatMap.mp h
    rcases List.mem_append.mp h with h | h
    · exact absurd (g.blank newline h) (by decide)
    · exact (t.plain newline h).2.1 rfl

theorem plain_texts (d : Document) : ∀ l ∈ d.texts, Plain l := by
  have hsetting : ∀ s : Setting, Plain s.text := by
    intro s
    rw [Setting.text, plain_append, plain_append]
    exact ⟨plain_key s.key, by decide, s.value.inline, s.value.nul_notMem⟩
  intro l hl
  rcases List.mem_append.mp hl with hl | hl
  · obtain ⟨s, -, rfl⟩ := List.mem_map.mp hl
    exact hsetting s
  · obtain ⟨e, -, hl⟩ := List.mem_flatMap.mp hl
    rcases List.mem_cons.mp hl with rfl | hl
    · rw [plain_append, plain_append]
      exact ⟨by decide, by decide, e.label.inline, e.label.nul_notMem⟩
    · obtain ⟨s, -, rfl⟩ := List.mem_map.mp hl
      exact hsetting s

/-- The configuration file of a document: its lines, each with a newline behind it. -/
def Document.text (d : Document) : CString where
  bytes := d.texts.flatMap fun l => l ++ [newline]
  nul_notMem := by
    intro h
    obtain ⟨l, hl, h⟩ := List.mem_flatMap.mp h
    rcases List.mem_append.mp h with h | h
    · exact (plain_texts d l hl).2 h
    · exact absurd h (by decide)

theorem lines_text (d : Document) : (lines d.text).map Located.line = d.texts ++ [[]] := by
  have hlines : ∀ (ls : List (List UInt8)) (n : Nat), (∀ l ∈ ls, newline ∉ l) →
      (linesFrom newline n (ls.flatMap fun l => l ++ [newline])).map Located.line
        = ls ++ [[]] := by
    intro ls
    induction ls with
    | nil => exact fun n _ => rfl
    | cons l ls ih =>
        intro n hls
        have hl : newline ∉ l := hls l List.mem_cons_self
        rw [List.flatMap_cons, List.append_assoc, List.singleton_append, linesFrom_line _ _ hl,
          List.map_cons, ih _ fun l' hl' => hls l' (List.mem_cons_of_mem l hl')]
        rfl
  exact hlines d.texts 0 fun l hl => (plain_texts d l hl).1

/-- **Round trip.** A document is read back from its text, and from any configuration that is
written for it, whatever its layout. -/
theorem document_roundTrip (d : Document) :
    Reads d.text d ∧ ∀ cfg, Writes d ((lines cfg).map Located.line) → Reads cfg d := by
  refine ⟨reads_of_writes ?_, fun cfg => reads_of_writes⟩
  rw [lines_text]
  exact (writes_texts d).append_blank (by simp)

end LoliLoader.Extlinux
