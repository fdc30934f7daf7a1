import PraxisPolicy.LineFraming

/-!
# Text in bytes, and its lines

The UTF-8 bytes of a text hold a newline only where the text does, so lines can be cut on bytes or
on characters.
-/

namespace PraxisPolicy.EncodedText

open LineFraming

def encode (text : String) : List UInt8 := text.toList.flatMap String.utf8EncodeChar

def decode (bytes : List UInt8) : Option String := String.fromUTF8? bytes.toByteArray

theorem decode_encode (text : String) : decode (encode text) = some text := by
  have hbytes : (encode text).toByteArray = text.toByteArray := String.utf8Encode_toList
  rw [decode, hbytes, String.fromUTF8?, dif_pos text.isValidUTF8]
  rfl

theorem encode_injective : Function.Injective encode := by
  intro s t h
  have hdecode := congrArg decode h
  rw [decode_encode, decode_encode] at hdecode
  exact Option.some.inj hdecode

@[simp] theorem encode_append (s t : String) : encode (s ++ t) = encode s ++ encode t := by
  simp [encode]

theorem ascii_mem_utf8EncodeChar {byte : UInt8} (hbyte : byte.toNat < 128) (c : Char) :
    byte ∈ String.utf8EncodeChar c ↔ c.toNat = byte.toNat := by
  have hofNat : ∀ n : ℕ, byte = UInt8.ofNat n ↔ n % 256 = byte.toNat := by
    intro n
    rw [← UInt8.toNat_inj, UInt8.toNat_ofNat']
    exact eq_comm
  have hchar : c.toNat = c.val.toNat := rfl
  simp only [String.utf8EncodeChar]
  rw [hchar]
  split_ifs with h₁ h₂ h₃
  all_goals
    simp only [List.mem_cons, List.not_mem_nil, or_false, hofNat]
    omega

theorem newline_mem_utf8EncodeChar (c : Char) :
    newline ∈ String.utf8EncodeChar c ↔ c = '\n' := by
  have hchar : c = '\n' ↔ c.toNat = 10 := by
    rw [← Char.val_inj, ← UInt32.toNat_inj]
    rfl
  rw [hchar]
  exact ascii_mem_utf8EncodeChar (by decide) c

theorem newline_mem_encode {text : String} : newline ∈ encode text ↔ '\n' ∈ text.toList := by
  simp [encode, newline_mem_utf8EncodeChar]

/-- The texts, each with a newline behind it. -/
def joinLines (texts : List String) : String :=
  String.ofList (texts.flatMap fun text => text.toList ++ ['\n'])

theorem encode_joinLines (texts : List String) :
    encode (joinLines texts) = (texts.map fun text => encode text ++ [newline]).flatten := by
  induction texts with
  | nil => rfl
  | cons text texts ih =>
    have hcons : joinLines (text :: texts) = text ++ "\n" ++ joinLines texts := by
      rw [← String.toList_inj]
      simp [joinLines]
    rw [hcons, encode_append, encode_append, ih]
    rfl

def isLineFeed (c : Char) : Bool := c == '\n'

def stripReturn (line : List Char) : List Char :=
  if line.getLast? = some '\r' then line.dropLast else line

def textLines (text : String) : List String :=
  (finished isLineFeed text.toList).map (fun line => String.ofList (stripReturn line.dropLast)) ++
    match unfinished isLineFeed text.toList with
    | [] => []
    | rest => [String.ofList rest]

theorem textLines_joinLines {texts : List String}
    (hfeed : ∀ text ∈ texts, '\n' ∉ text.toList)
    (hreturn : ∀ text ∈ texts, text.toList.getLast? ≠ some '\r') :
    textLines (joinLines texts) = texts := by
  have hline : ∀ line ∈ texts.map (fun text => text.toList ++ ['\n']),
      IsLine isLineFeed line := by
    intro line hmem
    obtain ⟨text, htext, rfl⟩ := List.mem_map.1 hmem
    refine ⟨text.toList, '\n', rfl, rfl, fun c hc => ?_⟩
    have hne : c ≠ '\n' := fun heq => hfeed text htext (heq ▸ hc)
    simpa [isLineFeed] using hne
  obtain ⟨hfinished, hrest⟩ := cut_lines hline
  have hjoin : (joinLines texts).toList =
      (texts.map fun text => text.toList ++ ['\n']).flatten := by
    simp [joinLines, List.flatMap_def]
  rw [textLines, hjoin, hfinished, hrest, List.append_nil, List.map_map]
  refine (List.map_congr_left fun text htext => ?_).trans (List.map_id texts)
  simp [stripReturn, hreturn text htext]

end PraxisPolicy.EncodedText
