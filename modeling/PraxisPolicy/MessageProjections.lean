import PraxisPolicy.HashMaps
import PraxisPolicy.JsonValues

/-!
# Projections of a message

A policy sees the first structured part of a message or else its texts, joined.  What it made of
them is written back into that part, or into the first text; all other parts stay.
-/

namespace PraxisPolicy

open HashMaps JsonValues

/-- A JSON value, with the map its members are kept in. -/
inductive Value where
  | null
  | bool (b : Bool)
  | number (n : Number)
  | string (text : String)
  | array (items : List Json)
  | object (members : HashMap String Json)

/-- A string anywhere in a document. -/
inductive TextIn : Json → String → Prop
  | string (t : String) : TextIn (.string t) t
  | item {items x t} : x ∈ items → TextIn x t → TextIn (.array items) t
  | member {members key x t} : (key, x) ∈ members → TextIn x t → TextIn (.object members) t

def Value.Text : Value → String → Prop
  | .string text, t => text = t
  | .array items, t => ∃ x ∈ items, TextIn x t
  | .object members, t => ∃ key x, members.lookup key = some x ∧ TextIn x t
  | _, _ => False

def Value.Carries (v : Value) (t : String) : Prop := ∃ s, v.Text s ∧ t.toList <:+: s.toList

def Value.asStr : Value → Option String
  | .string text => some text
  | _ => none

/-- `rest` are the fields that projections do not touch. -/
inductive MessagePart (X : Type) where
  | text (text : String)
  | toolCall (rest : X) (arguments : HashMap String Json)
  | promptRequest (rest : X) (arguments : HashMap String Json)
  | toolResult (rest : X) (content : Value)
  | other (rest : X)

section Projections

variable {X : Type}

namespace MessagePart

def asText : MessagePart X → Option String
  | .text shown => some shown
  | _ => none

def rest : MessagePart X → Option X
  | .text _ => none
  | .toolCall rest _ | .promptRequest rest _ | .toolResult rest _ | .other rest => some rest

def value : MessagePart X → Option Value
  | .text shown => some (.string shown)
  | .toolCall _ arguments | .promptRequest _ arguments => some (.object arguments)
  | .toolResult _ content => some content
  | .other _ => none

end MessagePart

def texts (content : List (MessagePart X)) : List String := content.filterMap MessagePart.asText

def getTextContent (content : List (MessagePart X)) : String := String.join (texts content)

def rewriteMessageText (newText : String) : List (MessagePart X) → List (MessagePart X)
  | [] => [.text newText]
  | .text _ :: parts => .text newText :: parts
  | part :: parts => part :: rewriteMessageText newText parts

/-- The parts a projection reads, and what may be written into them. -/
structure Focus (X : Type) where
  read : MessagePart X → Option Value
  fill : Value → MessagePart X → MessagePart X
  Fits : Value → Prop
  read_value : ∀ {part v}, read part = some v → part.value = some v
  fill_read : ∀ {part v}, read part = some v → fill v part = part
  read_fill : ∀ {part v w}, read part = some v → Fits w →
    read (fill w part) = some w ∧ (fill w part).rest = part.rest
  blank : ∃ w, Fits w ∧ ∀ t, ¬ w.Text t ∨ t = ""

def argsFocus : Focus X where
  read
    | .toolCall _ arguments | .promptRequest _ arguments => some (.object arguments)
    | _ => none
  fill
    | .object members, .toolCall rest _ => .toolCall rest members
    | .object members, .promptRequest rest _ => .promptRequest rest members
    | _, part => part
  Fits v := ∃ members, v = .object members
  read_value := by
    rintro (_ | _ | _ | _ | _) _ ⟨⟩ <;> rfl
  fill_read := by
    rintro (_ | _ | _ | _ | _) _ ⟨⟩ <;> rfl
  read_fill := by
    rintro (_ | _ | _ | _ | _) _ _ ⟨⟩ ⟨members, rfl⟩ <;> exact ⟨rfl, rfl⟩
  blank := ⟨.object ∅, ⟨∅, rfl⟩, fun _ => .inl (by rintro ⟨key, x, ⟨⟩, -⟩)⟩

def resultFocus : Focus X where
  read
    | .toolResult _ content => some content
    | _ => none
  fill
    | v, .toolResult rest _ => .toolResult rest v
    | _, part => part
  Fits _ := True
  read_value := by
    rintro (_ | _ | _ | _ | _) _ ⟨⟩
    rfl
  fill_read := by
    rintro (_ | _ | _ | _ | _) _ ⟨⟩
    rfl
  read_fill := by
    rintro (_ | _ | _ | _ | _) _ _ ⟨⟩ _
    exact ⟨rfl, rfl⟩
  blank := ⟨.null, trivial, fun _ => .inl id⟩

/-- The part that `rewriteMessageText` writes into. -/
def textFocus : Focus X where
  read part := part.asText.map .string
  fill
    | .string new, .text _ => .text new
    | _, part => part
  Fits v := ∃ text, v = .string text
  read_value := by
    rintro (_ | _ | _ | _ | _) _ ⟨⟩
    rfl
  fill_read := by
    rintro (_ | _ | _ | _ | _) _ ⟨⟩
    rfl
  read_fill := by
    rintro (_ | _ | _ | _ | _) _ _ ⟨⟩ ⟨text, rfl⟩
    exact ⟨rfl, rfl⟩
  blank := ⟨.string "", ⟨"", rfl⟩, fun t => (eq_or_ne t "").symm.imp (fun h => Ne.symm h) id⟩

variable (focus : Focus X)

def extractFromMessage (content : List (MessagePart X)) : Value :=
  (content.findSome? focus.read).getD (.string (getTextContent content))

/-- `none` if no part is in focus. -/
def writeFirst (v : Value) : List (MessagePart X) → Option (List (MessagePart X))
  | [] => none
  | part :: parts =>
    if (focus.read part).isSome then some (focus.fill v part :: parts)
    else (writeFirst v parts).map (part :: ·)

def writeBackToMessage (content : List (MessagePart X)) (v : Value) : List (MessagePart X) :=
  (writeFirst focus v content).getD
    (v.asStr.elim content fun text => rewriteMessageText text content)

def extractArgsFromMessage : List (MessagePart X) → Value := extractFromMessage argsFocus
def writeArgsBackToMessage : List (MessagePart X) → Value → List (MessagePart X) :=
  writeBackToMessage argsFocus
def extractResultFromMessage : List (MessagePart X) → Value := extractFromMessage resultFocus
def writeResultBackToMessage : List (MessagePart X) → Value → List (MessagePart X) :=
  writeBackToMessage resultFocus

end Projections

section Laws

variable {X : Type} (inRest : X → String → Prop) {focus : Focus X} {content : List (MessagePart X)}

def ProjectedShape (focus : Focus X) (content : List (MessagePart X)) (v : Value) : Prop :=
  if (content.findSome? focus.read).isSome then focus.Fits v else ∃ text, v = .string text

/-- `inRest` says what is in the fields that no projection touches. -/
def MessagePart.RestCarries (part : MessagePart X) (t : String) : Prop :=
  ∃ rest ∈ part.rest, ∃ s, inRest rest s ∧ t.toList <:+: s.toList

def MessagePart.Carries (part : MessagePart X) (t : String) : Prop :=
  part.RestCarries inRest t ∨ ∃ v ∈ part.value, v.Carries t

/-- What was read is written back unchanged, what is written is read, and a text that the new value
is without is in no part any more. -/
structure LensAt (focus : Focus X) (content : List (MessagePart X)) : Prop where
  unchanged : writeBackToMessage focus content (extractFromMessage focus content) = content
  written : ∀ v, ProjectedShape focus content v →
    extractFromMessage focus (writeBackToMessage focus content v) = v
  gone : ∀ v, ProjectedShape focus content v → ∀ t ≠ "", (extractFromMessage focus content).Text t →
    ¬ v.Carries t → ∀ part ∈ writeBackToMessage focus content v, ¬ part.Carries inRest t

/-- The texts of a value are not in other fields of its part, nor in other parts. -/
def OnlyIn (part : MessagePart X) (v : Value) (others : List (MessagePart X)) : Prop :=
  ∀ t ≠ "", v.Text t → ¬ part.RestCarries inRest t ∧ ∀ p ∈ others, ¬ p.Carries inRest t

/-- The texts of the first part in focus are nowhere else in the message. -/
def Alone (focus : Focus X) (content : List (MessagePart X)) : Prop :=
  ∃ before part after v, content = before ++ part :: after ∧ focus.read part = some v ∧
    (∀ p ∈ before, focus.read p = none) ∧ OnlyIn inRest part v (before ++ after)

variable {inRest} {before after : List (MessagePart X)} {part : MessagePart X} {v : Value}

theorem findSome?_split (hbefore : ∀ p ∈ before, focus.read p = none)
    (hread : focus.read part = some v) :
    (before ++ part :: after).findSome? focus.read = some v := by
  simp [List.findSome?_append, List.findSome?_eq_none_iff.2 hbefore, hread]

theorem writeFirst_split (hbefore : ∀ p ∈ before, focus.read p = none)
    (hread : focus.read part = some v) (w : Value) :
    writeFirst focus w (before ++ part :: after) = some (before ++ focus.fill w part :: after) := by
  induction before with
  | nil => simp [writeFirst, hread]
  | cons p before ih =>
    obtain ⟨hp, hbefore⟩ := List.forall_mem_cons.1 hbefore
    simp [writeFirst, hp, ih hbefore]

theorem writeFirst_of_none (h : content.findSome? focus.read = none) (v : Value) :
    writeFirst focus v content = none := by
  induction content with
  | nil => rfl
  | cons p parts ih =>
    obtain ⟨hp, hparts⟩ := List.forall_mem_cons.1 (List.findSome?_eq_none_iff.1 h)
    simp [writeFirst, hp, ih (List.findSome?_eq_none_iff.2 hparts)]

/-- A new value takes the old texts out of a message exactly when they are in its part alone. -/
theorem gone_iff_alone (hread : focus.read part = some v) :
    (∀ w, focus.Fits w → ∀ t ≠ "", v.Text t → ¬ w.Carries t →
      ∀ p ∈ before ++ focus.fill w part :: after, ¬ p.Carries inRest t) ↔
    OnlyIn inRest part v (before ++ after) := by
  constructor
  · intro h t ht htext
    obtain ⟨w, hfits, hblank⟩ := focus.blank
    have hnone : ¬ w.Carries t := by
      rintro ⟨s, hs, hinfix⟩
      rcases hblank s with hno | rfl
      · exact hno hs
      · exact ht (String.toList_eq_nil_iff.1 (List.infix_nil.1 hinfix))
    have hgone := h w hfits t ht htext hnone
    refine ⟨fun hrest => hgone (focus.fill w part) (by simp) (.inl ?_), fun p hp => hgone p ?_⟩
    · rw [MessagePart.RestCarries, (focus.read_fill hread hfits).2]
      exact hrest
    · rcases List.mem_append.1 hp with hp | hp <;> simp [hp]
  · intro h w hfits t ht htext hnone p hp
    obtain ⟨hrest, hothers⟩ := h t ht htext
    rcases List.mem_append.1 hp with hp | hp
    · exact hothers p (List.mem_append_left _ hp)
    rcases List.mem_cons.1 hp with rfl | hp
    · obtain ⟨hnew, hkept⟩ := focus.read_fill hread hfits
      rintro (hcarried | ⟨u, hu, hcarried⟩)
      · rw [MessagePart.RestCarries, hkept] at hcarried
        exact hrest hcarried
      · rw [focus.read_value hnew] at hu
        cases hu
        exact hnone hcarried
    · exact hothers p (List.mem_append_right _ hp)

/-- A projection that reads and writes one part is a lens exactly when the texts are in it alone. -/
theorem lensAt_iff_of_target {target : Focus X} (hread : target.read part = some v)
    (hshape : ∀ w, ProjectedShape focus (before ++ part :: after) w ↔ target.Fits w)
    (hextract : ∀ p w, target.read p = some w →
      extractFromMessage focus (before ++ p :: after) = w)
    (hwrite : ∀ w, target.Fits w ∨ w = v →
      writeBackToMessage focus (before ++ part :: after) w = before ++ target.fill w part :: after) :
    LensAt inRest focus (before ++ part :: after) ↔ OnlyIn inRest part v (before ++ after) := by
  rw [← gone_iff_alone hread]
  constructor
  · intro h w hw
    rw [← hwrite w (.inl hw), ← hextract part v hread]
    exact h.gone w ((hshape w).2 hw)
  · intro h
    refine ⟨?_, fun w hw => ?_, fun w hw => ?_⟩
    · rw [hextract part v hread, hwrite v (.inr rfl), target.fill_read hread]
    · rw [hwrite w (.inl ((hshape w).1 hw))]
      exact hextract _ _ (target.read_fill hread ((hshape w).1 hw)).1
    · rw [hextract part v hread, hwrite w (.inl ((hshape w).1 hw))]
      exact h w ((hshape w).1 hw)

theorem lensAt_iff_of_read (hbefore : ∀ p ∈ before, focus.read p = none)
    (hread : focus.read part = some v) :
    LensAt inRest focus (before ++ part :: after) ↔ OnlyIn inRest part v (before ++ after) := by
  refine lensAt_iff_of_target hread (fun w => ?_) (fun p w hp => ?_) fun w _ => ?_
  · rw [ProjectedShape, findSome?_split hbefore hread, if_pos Option.isSome_some]
  · rw [extractFromMessage, findSome?_split hbefore hp, Option.getD_some]
  · rw [writeBackToMessage, writeFirst_split hbefore hread, Option.getD_some]

theorem rewriteMessageText_split {first : String}
    (hbefore : ∀ p ∈ before, textFocus.read p = none) (newText : String) :
    rewriteMessageText newText (before ++ .text first :: after) =
      before ++ .text newText :: after := by
  induction before with
  | nil => rfl
  | cons p before ih =>
    obtain ⟨hp, hothers⟩ := List.forall_mem_cons.1 hbefore
    cases p with
    | text _ => cases hp
    | _ => simp [rewriteMessageText, ih hothers]

theorem rewriteMessageText_of_none (h : ∀ p ∈ content, textFocus.read p = none) (newText : String) :
    rewriteMessageText newText content = content ++ [.text newText] := by
  induction content with
  | nil => rfl
  | cons p parts ih =>
    obtain ⟨hp, hparts⟩ := List.forall_mem_cons.1 h
    cases p with
    | text _ => cases hp
    | _ => simp [rewriteMessageText, ih hparts]

theorem exists_text_of_read (h : textFocus.read part = some v) :
    ∃ first, part = .text first ∧ v = .string first := by
  obtain ⟨first, hfirst, rfl⟩ := Option.map_eq_some_iff.1 h
  cases part with
  | text shown => exact ⟨first, by rw [Option.some.inj hfirst], rfl⟩
  | _ => cases hfirst

theorem texts_split {first : String} (hbefore : ∀ p ∈ before, textFocus.read p = none) :
    texts (before ++ .text first :: after) = first :: texts after := by
  have hnone : texts before = [] :=
    List.filterMap_eq_nil_iff.2 fun p hp => Option.map_eq_none_iff.1 (hbefore p hp)
  rw [texts, List.filterMap_append]
  exact congrArg (· ++ _) hnone

theorem join_eq_empty_iff (later : List String) : String.join later = "" ↔ ∀ t ∈ later, t = "" := by
  induction later with
  | nil => simp
  | cons t later ih => simp [String.append_eq_empty_iff, ih]

theorem writeBack_of_none (hnone : content.findSome? focus.read = none) (text : String) :
    writeBackToMessage focus content (.string text) = rewriteMessageText text content := by
  rw [writeBackToMessage, writeFirst_of_none hnone]
  rfl

theorem extract_of_none (hnone : content.findSome? focus.read = none) :
    extractFromMessage focus content = .string (getTextContent content) := by
  rw [extractFromMessage, hnone]
  rfl

theorem lensAt_iff_of_text {first : String} (htext : ∀ text, focus.read (.text text) = none)
    (hnone : (before ++ .text first :: after).findSome? focus.read = none)
    (hbefore : ∀ p ∈ before, textFocus.read p = none) :
    LensAt inRest focus (before ++ .text first :: after) ↔
      (∀ t ∈ texts after, t = "") ∧
        OnlyIn inRest (.text first) (.string first) (before ++ after) := by
  have hwrite : ∀ text, writeBackToMessage focus (before ++ .text first :: after) (.string text) =
      before ++ .text text :: after := by
    intro text
    rw [writeBack_of_none hnone, rewriteMessageText_split hbefore]
  have hextract : ∀ text, extractFromMessage focus (before ++ .text text :: after) =
      .string (text ++ String.join (texts after)) := by
    intro text
    have hnone' : (before ++ .text text :: after).findSome? focus.read = none := by
      simp only [List.findSome?_append, List.findSome?_cons, htext] at hnone ⊢
      exact hnone
    rw [extract_of_none hnone', getTextContent, texts_split hbefore, String.join_cons]
  have hempty : LensAt inRest focus (before ++ .text first :: after) → ∀ t ∈ texts after, t = "" := by
    intro h
    have hsame := h.unchanged
    rw [hextract, hwrite, List.append_cancel_left_eq, List.cons.injEq, MessagePart.text.injEq]
      at hsame
    have hlist := congrArg String.toList hsame.1
    rw [String.toList_append] at hlist
    exact (join_eq_empty_iff _).1 (String.toList_eq_nil_iff.1 (List.append_right_eq_self.1 hlist))
  refine (and_iff_right_of_imp hempty).symm.trans (and_congr_right fun hlater => ?_)
  refine @lensAt_iff_of_target X inRest focus before after _ _ textFocus rfl (fun w => ?_)
    (fun p w hp => ?_) ?_
  · rw [ProjectedShape, hnone]
    exact Iff.rfl
  · obtain ⟨text, rfl, rfl⟩ := exists_text_of_read hp
    rw [hextract, (join_eq_empty_iff _).2 hlater, String.append_empty]
  · rintro _ (⟨text, rfl⟩ | rfl) <;> exact hwrite _

theorem lensAt_iff (focus : Focus X) (htext : ∀ text, focus.read (.text text) = none)
    (content : List (MessagePart X)) :
    LensAt inRest focus content ↔ Alone inRest focus content ∨
      content.findSome? focus.read = none ∧ Alone inRest textFocus content ∧
        ∀ t ∈ (texts content).tail, t = "" := by
  constructor
  · intro h
    cases hfound : content.findSome? focus.read with
    | some v =>
      obtain ⟨before, part, after, rfl, hread, hbefore⟩ := List.findSome?_eq_some_iff.1 hfound
      exact .inl ⟨before, part, after, v, rfl, hread, hbefore,
        (lensAt_iff_of_read hbefore hread).1 h⟩
    | none =>
      cases hshown : content.findSome? textFocus.read with
      | none =>
        -- a text is added to a message that has none
        have hadded := h.unchanged
        rw [extract_of_none hfound, writeBack_of_none hfound,
          rewriteMessageText_of_none (List.findSome?_eq_none_iff.1 hshown)] at hadded
        simp at hadded
      | some v =>
        obtain ⟨before, part, after, rfl, hread, hbefore⟩ := List.findSome?_eq_some_iff.1 hshown
        obtain ⟨first, rfl, rfl⟩ := exists_text_of_read hread
        obtain ⟨hlater, halone⟩ := (lensAt_iff_of_text htext hfound hbefore).1 h
        refine .inr ⟨rfl, ⟨before, _, after, _, rfl, hread, hbefore, halone⟩, ?_⟩
        rw [texts_split hbefore]
        exact hlater
  · rintro (⟨before, part, after, v, rfl, hread, hbefore, halone⟩ |
      ⟨hnone, ⟨before, part, after, v, rfl, hread, hbefore, halone⟩, hlater⟩)
    · exact (lensAt_iff_of_read hbefore hread).2 halone
    · obtain ⟨first, rfl, rfl⟩ := exists_text_of_read hread
      rw [texts_split hbefore] at hlater
      exact (lensAt_iff_of_text htext hnone hbefore).2 ⟨hlater, halone⟩

theorem projections_lens_iff (inRest : X → String → Prop) (content : List (MessagePart X)) :
    (LensAt inRest argsFocus content ↔ Alone inRest argsFocus content ∨
      content.findSome? argsFocus.read = none ∧ Alone inRest textFocus content ∧
        ∀ t ∈ (texts content).tail, t = "") ∧
    (LensAt inRest resultFocus content ↔ Alone inRest resultFocus content ∨
      content.findSome? resultFocus.read = none ∧ Alone inRest textFocus content ∧
        ∀ t ∈ (texts content).tail, t = "") :=
  ⟨lensAt_iff argsFocus (fun _ => rfl) content, lensAt_iff resultFocus (fun _ => rfl) content⟩

/-- A second text stays when the text is taken out, and so does what a second result shares with the
first. -/
theorem second_text_kept :
    extractArgsFromMessage (writeArgsBackToMessage [.text "a", .text "b", .other ()] (.string "")) =
      .string "b" ∧ writeArgsBackToMessage ([] : List (MessagePart Unit))
        (extractArgsFromMessage ([] : List (MessagePart Unit))) = [.text ""] ∧
    writeResultBackToMessage [.toolResult () (.string "ssn"), .toolResult () (.string "ssn")]
      (.string "") = [.toolResult () (.string ""), .toolResult () (.string "ssn")] := by
  refine ⟨rfl, rfl, rfl⟩

end Laws

end PraxisPolicy
