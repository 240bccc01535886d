import SettingsScan.ResponseFile
import SettingsScan.Proofs.Text.Utf16
import SettingsScan.Proofs.Text.Utf8

/-! # Forms of a response file

A file holds a text in UTF-8, with or without a byte order mark, or in UTF-16 behind the mark of
either byte order. The text is loaded from each of them, since the first bytes tell them apart; only
a text that itself starts with the mark loses it in UTF-8 without a mark of its own.
-/

namespace SettingsScan

namespace Encoding

def mark : Char := '\uFEFF'

inductive TextForm where
  | utf8
  | markedUtf8
  | utf16LittleEndian
  | utf16BigEndian
  deriving DecidableEq, Repr

/-- The bytes of a text. The mark is a character in front of it. -/
def TextForm.bytes : TextForm → Text → Bytes
  | utf8, t => Encoding.utf8 t
  | markedUtf8, t => Encoding.utf8 (mark :: t)
  | utf16LittleEndian, t => utf16 lowFirst (mark :: t)
  | utf16BigEndian, t => utf16 highFirst (mark :: t)

variable {t : Text}

theorem utf8EncodeChar_mark : String.utf8EncodeChar mark = [0xEF, 0xBB, 0xBF] := by
  decide

theorem decode_marked (t : Text) : decode (utf8 (mark :: t)) = t := by
  rw [utf8_cons, utf8EncodeChar_mark]
  exact ofUtf8_utf8 t

theorem decode_utf8 (h : t.head? ≠ some mark) : decode (utf8 t) = t := by
  have hread : decode (utf8 t) = ofUtf8 (utf8 t) := by
    unfold decode
    split
    · next rest hbytes =>
      -- the text would start with the mark
      have htext := ofUtf8_utf8 t
      rw [hbytes] at htext
      have hmark : ofUtf8 (0xEF :: 0xBB :: 0xBF :: rest) = mark :: ofUtf8 rest := by
        have hchar := ofUtf8From_utf8EncodeChar mark rest
        rwa [utf8EncodeChar_mark] at hchar
      rw [hmark] at htext
      simp [← htext] at h
    · next hbytes =>
      have := lt_of_mem_utf8 (t := t) (b := 0xFF) (by simp [hbytes])
      simp at this
    · next hbytes =>
      have := lt_of_mem_utf8 (t := t) (b := 0xFE) (by simp [hbytes])
      simp at this
    · rfl
  rw [hread, ofUtf8_utf8]

theorem decode_utf8_eq_iff : decode (utf8 t) = t ↔ t.head? ≠ some mark := by
  refine ⟨fun h hm => ?_, decode_utf8⟩
  obtain ⟨t, rfl⟩ := List.head?_eq_some_iff.mp hm
  rw [decode_marked] at h
  exact List.cons_ne_self mark t h.symm

theorem decode_utf16LittleEndian (t : Text) : decode (utf16 lowFirst (mark :: t)) = t :=
  joins_littleEndian.ofUtf16_utf16 t

theorem decode_utf16BigEndian (t : Text) : decode (utf16 highFirst (mark :: t)) = t :=
  joins_bigEndian.ofUtf16_utf16 t

end Encoding

namespace ResponseFile

open Encoding (TextForm mark)

variable {contents : Contents} {path t : Text} {form : TextForm}

/-- A text is loaded from a file that holds it in any of the forms, unless it starts with the mark
itself and has none in front of it. -/
theorem load_textForm_iff (h : contents path = some (form.bytes t)) :
    load contents path = some t ↔ (form = .utf8 → t.head? ≠ some mark) := by
  rw [load, h, Option.map_some, Option.some.injEq]
  cases form with
  | utf8 => simpa [TextForm.bytes] using Encoding.decode_utf8_eq_iff
  | markedUtf8 => exact iff_of_true (Encoding.decode_marked t) nofun
  | utf16LittleEndian => exact iff_of_true (Encoding.decode_utf16LittleEndian t) nofun
  | utf16BigEndian => exact iff_of_true (Encoding.decode_utf16BigEndian t) nofun

theorem load_textForm_iff_planes :
    let t : Text := "-Dé=€𐀀😀".toList
    let contents : Contents := fun path => if path = "/p/args.rsp".toList then
      some [0xFF, 0xFE, 0x2D, 0x00, 0x44, 0x00, 0xE9, 0x00, 0x3D, 0x00, 0xAC, 0x20, 0x00, 0xD8,
        0x00, 0xDC, 0x3D, 0xD8, 0x00, 0xDE] else none
    contents "/p/args.rsp".toList = some (TextForm.utf16LittleEndian.bytes t) ∧
      load contents "/p/args.rsp".toList = some t := by
  intro t contents
  have h : contents "/p/args.rsp".toList = some (TextForm.utf16LittleEndian.bytes t) := by decide
  exact ⟨h, (load_textForm_iff h).mpr nofun⟩

end ResponseFile

end SettingsScan
