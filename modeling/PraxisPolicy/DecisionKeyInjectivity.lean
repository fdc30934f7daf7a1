import PraxisPolicy.CanonicalJson
import PraxisPolicy.DecisionKeys

/-!
# Different questions have different keys

What is written for a value is read back from the start of a longer text, up to the order of map
entries.
-/

namespace PraxisPolicy

open BinaryFloats EncodedText HashMaps JsonValues PrefixCodes SortedLists
  TextScanning

section Scalars

/-- `u64`, negative `i64` and doubles. -/
def Number.InRange : Number → Prop
  | .posInt n => n < 2 ^ 64
  | .negInt n => -2 ^ 63 ≤ n ∧ n < 0
  | .float _ => True

theorem length_hashBytes (bytes : List UInt8) : (hashBytes bytes).length = 8 + bytes.length :=
  length_framed bytes

theorem hashBytes_append_inj {a b r s : List UInt8} (ha : (hashBytes a).length < 2 ^ 64)
    (hb : (hashBytes b).length < 2 ^ 64) (h : hashBytes a ++ r = hashBytes b ++ s) :
    a = b ∧ r = s := by
  rw [length_hashBytes] at ha hb
  have hla : a.length < len64.limit := lt_of_le_of_lt (Nat.le_add_left _ _) ha
  have hlb : b.length < len64.limit := lt_of_le_of_lt (Nat.le_add_left _ _) hb
  exact framed_append_inj hla hlb h

theorem i64Bytes_inj {m n : ℤ} (hm : -2 ^ 63 ≤ m ∧ m < 2 ^ 63) (hn : -2 ^ 63 ≤ n ∧ n < 2 ^ 63)
    (h : i64Bytes m = i64Bytes n) : m = n := by
  have heq := bytesBE_inj (by omega) (by omega) h
  omega

theorem f64Bits_lt (f : Float64) : f64Bits f < 2 ^ 64 := by
  have hexponent := f.exponent.isLt
  have hfraction := f.fraction.isLt
  unfold f64Bits
  split <;> omega

theorem f64Bytes_inj {f g : Float64} (h : f64Bytes f = f64Bytes g) : f = g := by
  have hbits : f64Bits f = f64Bits g := by
    have hf := f64Bits_lt f
    have hg := f64Bits_lt g
    exact bytesBE_inj (by omega) (by omega) h
  obtain ⟨fn, fe, ff⟩ := f
  obtain ⟨gn, ge, gf⟩ := g
  have hfe := fe.isLt
  have hff := ff.isLt
  have hge := ge.isLt
  have hgf := gf.isLt
  unfold f64Bits at hbits
  -- the sign is the highest bit, the exponent comes next
  have hsign : fn = gn := by
    cases fn <;> cases gn <;> simp only [if_true, if_false, Bool.false_eq_true] at hbits <;>
      first | rfl | omega
  subst hsign
  simp only [Nat.add_assoc, Nat.add_left_cancel_iff] at hbits
  have hexponent : fe.val = ge.val := by omega
  have hfraction : ff.val = gf.val := by omega
  rw [Fin.ext hexponent, Fin.ext hfraction]

@[simp] theorem length_i64Bytes (n : ℤ) : (i64Bytes n).length = 8 := length_bytesBE 8 _

@[simp] theorem length_f64Bytes (f : Float64) : (f64Bytes f).length = 8 := length_bytesBE 8 _

theorem boolByte_inj {a b : Bool} (h : boolByte a = boolByte b) : a = b := by
  cases a <;> cases b <;> first | rfl | cases h

theorem length_hashNumber (n : Number) : (hashNumber n).length = 9 := by
  unfold hashNumber
  split <;> simp

theorem head_hashNumber (n : Number) : (hashNumber n).head? ∈ [some 2, some 3, some 4] := by
  unfold hashNumber
  split <;> simp

theorem hashNumber_posInt (n : ℕ) :
    hashNumber (.posInt n) = if n < 2 ^ 63 then 2 :: i64Bytes n else 3 :: bytesBE 8 n := by
  simp only [hashNumber, Number.asI64, Number.asU64]
  split_ifs <;> rfl

theorem hashNumber_inj {m n : Number} (hm : Number.InRange m) (hn : Number.InRange n)
    (h : hashNumber m = hashNumber n) : m = n := by
  have hnegInt : ∀ n, hashNumber (.negInt n) = 2 :: i64Bytes n := fun _ => rfl
  have hfloat : ∀ f, hashNumber (.float f) = 4 :: f64Bytes f := fun _ => rfl
  have hnats : ∀ {m n : ℕ}, m < 2 ^ 64 → n < 2 ^ 64 → bytesBE 8 m = bytesBE 8 n → m = n :=
    fun hm hn => bytesBE_inj (by omega) (by omega)
  have hints := @i64Bytes_inj
  have hfloats := @f64Bytes_inj
  cases m <;> cases n <;> grind [Number.InRange, hashNumber_posInt]

variable {r s : List UInt8}

theorem hashNumber_append_inj {m n : Number} (hm : Number.InRange m)
    (hn : Number.InRange n) (h : hashNumber m ++ r = hashNumber n ++ s) : m = n ∧ r = s := by
  have hsplit := List.append_inj h (by rw [length_hashNumber, length_hashNumber])
  exact ⟨hashNumber_inj hm hn hsplit.1, hsplit.2⟩

theorem hashBytes_ne_nil (bytes : List UInt8) : hashBytes bytes ≠ [] := by
  intro h
  have hlength := length_hashBytes bytes
  rw [h, List.length_nil] at hlength
  omega

/-- Elements behind their number, in a text short enough for exact lengths. -/
theorem counted64_append_inj {α : Type} {enc : α → List UInt8} {R : α → α → Prop} {l m : List α}
    (hl : (counted len64 enc l).length < 2 ^ 64)
    (hm : (counted len64 enc m).length < 2 ^ 64) (hne : ∀ x, enc x ≠ [])
    (henc : ∀ x ∈ l, ∀ y ∈ m, (enc x).length < 2 ^ 64 → (enc y).length < 2 ^ 64 →
      ∀ r s, enc x ++ r = enc y ++ s → R x y ∧ r = s)
    (h : counted len64 enc l ++ r = counted len64 enc m ++ s) : List.Forall₂ R l m ∧ r = s := by
  rw [length_counted] at hl hm
  have hcount : ∀ {items : List α}, len64.width + (items.flatMap enc).length < 2 ^ 64 →
      items.length < len64.limit := by
    intro items hitems
    have hle := length_le_length_flatMap fun x (_ : x ∈ items) => hne x
    exact lt_of_le_of_lt (hle.trans (Nat.le_add_left _ _)) hitems
  refine counted_append_inj (hcount hl) (hcount hm) (fun x hx y hy => ?_) h
  have hxl := length_le_of_mem_flatMap enc hx
  have hyl := length_le_of_mem_flatMap enc hy
  exact henc x hx y hy (by omega) (by omega)

theorem hashBytes_append_value_inj {α : Type} (hash : α → List UInt8) {R : α → α → Prop}
    {k k' r s : List UInt8} {v v' : α} (hl : (hashBytes k ++ hash v).length < 2 ^ 64)
    (hm : (hashBytes k' ++ hash v').length < 2 ^ 64)
    (hvalue : (hash v).length < 2 ^ 64 → (hash v').length < 2 ^ 64 →
      ∀ r s, hash v ++ r = hash v' ++ s → R v v' ∧ r = s)
    (h : hashBytes k ++ hash v ++ r = hashBytes k' ++ hash v' ++ s) : (k = k' ∧ R v v') ∧ r = s := by
  rw [List.length_append] at hl hm
  rw [List.append_assoc, List.append_assoc] at h
  obtain ⟨hk, hrest⟩ := hashBytes_append_inj (by omega) (by omega) h
  obtain ⟨hv, hend⟩ := hvalue (by omega) (by omega) r s hrest
  exact ⟨⟨hk, hv⟩, hend⟩

end Scalars

section JsonValues

/-- All numbers are in the range of their type. -/
inductive Json.InRange : Json → Prop
  | null : InRange .null
  | bool (b : Bool) : InRange (.bool b)
  | number {n : Number} (h : Number.InRange n) : InRange (.number n)
  | string (s : String) : InRange (.string s)
  | array {items : List Json} (h : ∀ v ∈ items, InRange v) : InRange (.array items)
  | object {members : Members} (h : ∀ m ∈ members, InRange m.2) : InRange (.object members)

def tagKind (tag : UInt8) : ℕ :=
  if tag = 2 ∨ tag = 3 ∨ tag = 4 then 2 else tag.toNat

def jsonKind : Json → ℕ
  | .null => 0
  | .bool _ => 1
  | .number _ => 2
  | .string _ => 6
  | .array _ => 7
  | .object _ => 8

theorem hashNumber_eq_cons (n : Number) :
    ∃ tag body, hashNumber n = tag :: body ∧ tagKind tag = 2 := by
  have hhead := head_hashNumber n
  cases hhash : hashNumber n with
  | nil => simp [hhash] at hhead
  | cons tag body =>
    refine ⟨tag, body, rfl, if_pos ?_⟩
    simpa [hhash] using hhead

/-- The first byte tells the kind of the value. -/
def Announces {α κ : Type} (hash : α → List UInt8) (read : UInt8 → κ) (kind : α → κ) : Prop :=
  ∀ v, ∃ tag body, hash v = tag :: body ∧ read tag = kind v

section Announcing

variable {α κ : Type} {hash : α → List UInt8} {read : UInt8 → κ} {kind : α → κ}

theorem Announces.ne_nil (h : Announces hash read kind) (v : α) : hash v ≠ [] := by
  obtain ⟨tag, body, hv, -⟩ := h v
  simp [hv]

theorem Announces.kind_eq (h : Announces hash read kind) {v w : α} {r s : List UInt8}
    (heq : hash v ++ r = hash w ++ s) : kind v = kind w := by
  obtain ⟨tag, body, hv, hkind⟩ := h v
  obtain ⟨tag', body', hw, hkind'⟩ := h w
  rw [hv, hw, List.cons_append, List.cons_append, List.cons.injEq] at heq
  rw [← hkind, ← hkind', heq.1]

end Announcing

theorem announces_hashJson : Announces hashJson tagKind jsonKind := by
  intro v
  cases v with
  | number n => exact hashNumber_eq_cons n
  | _ => exact ⟨_, _, rfl, rfl⟩

variable {xs ys : List Json} {r s : List UInt8}

theorem hashBool_append_inj {tag : UInt8} {b b' : Bool}
    (h : [tag, boolByte b] ++ r = [tag, boolByte b'] ++ s) : b = b' ∧ r = s := by
  simp only [List.cons_append, List.nil_append, List.cons.injEq, true_and] at h
  exact ⟨boolByte_inj h.1, h.2⟩

theorem hashText_append_inj {tag : UInt8} {text text' : String}
    (hl : (tag :: hashBytes (encode text)).length < 2 ^ 64)
    (hl' : (tag :: hashBytes (encode text')).length < 2 ^ 64)
    (h : tag :: hashBytes (encode text) ++ r = tag :: hashBytes (encode text') ++ s) :
    text = text' ∧ r = s := by
  rw [List.length_cons] at hl hl'
  simp only [List.cons_append, List.cons.injEq, true_and] at h
  obtain ⟨hbytes, hrest⟩ := hashBytes_append_inj (by omega) (by omega) h
  exact ⟨encode_injective hbytes, hrest⟩

theorem hashJson_append_inj {v : Json} (hv : Json.InRange v) (hlv : (hashJson v).length < 2 ^ 64)
    {w : Json} (hw : Json.InRange w) (hlw : (hashJson w).length < 2 ^ 64)
    (h : hashJson v ++ r = hashJson w ++ s) : Json.SameValue v w ∧ r = s := by
  induction v using Json.induction generalizing w r s with
    have hkind := announces_hashJson.kind_eq h
  | null =>
    cases w with
    | null => exact ⟨.refl _, List.append_cancel_left h⟩
    | _ => cases hkind
  | bool b =>
    cases w with
    | bool b' =>
      obtain ⟨rfl, hrest⟩ := hashBool_append_inj h
      exact ⟨.refl _, hrest⟩
    | _ => cases hkind
  | number n =>
    cases w with
    | number n' =>
      cases hv with
      | number hn =>
        cases hw with
        | number hn' =>
          obtain ⟨rfl, hrest⟩ := hashNumber_append_inj hn hn' h
          exact ⟨.refl _, hrest⟩
    | _ => cases hkind
  | string text =>
    cases w with
    | string text' =>
      obtain ⟨rfl, hrest⟩ := hashText_append_inj hlv hlw h
      exact ⟨.refl _, hrest⟩
    | _ => cases hkind
  | array items ih =>
    cases w with
    | array items' =>
      cases hv with
      | array hv =>
        cases hw with
        | array hw =>
          rw [hashJson_array, List.length_cons] at hlv hlw
          rw [hashJson_array, hashJson_array, List.cons_append, List.cons_append,
            List.cons.injEq] at h
          obtain ⟨hitems, hrest⟩ := counted64_append_inj (by omega) (by omega) announces_hashJson.ne_nil
            (fun x hx y hy hxl hyl r s hxy => ih x hx (hv x hx) hxl (hw y hy) hyl hxy) h.2
          exact ⟨Json.sameValue_array hitems, hrest⟩
    | _ => cases hkind
  | object ms ih =>
    cases w with
    | object ms' =>
      cases hv with
      | object hv =>
        cases hw with
        | object hw =>
          rw [hashJson_object, List.length_cons] at hlv hlw
          rw [hashJson_object, hashJson_object, List.cons_append, List.cons_append,
            List.cons.injEq] at h
          have hread := counted64_append_inj
            (R := fun m n => m.1 = n.1 ∧ Json.SameValue m.2 n.2) (by omega) (by omega)
            (fun m hnil => hashBytes_ne_nil _ (List.append_eq_nil_iff.1 hnil).1)
            (fun m hm n hn hml hnl r s hmn => ?_) h.2
          · have hsorted : ∀ ns : Members, Json.SameValue (.object ns) (.object (sortOn Prod.fst ns)) :=
              fun ns => .reorder (perm_sortOn Prod.fst ns).symm
            exact ⟨((hsorted ms).trans (Json.sameValue_object hread.1)).trans
              (.reorder (perm_sortOn Prod.fst ms')), hread.2⟩
          · rw [mem_sortOn] at hm hn
            obtain ⟨⟨hkey, hvalue⟩, hrest⟩ := hashBytes_append_value_inj hashJson hml hnl
              (fun hl hl' r s hvalues => ih m hm (hv m hm) hl (hw n hn) hl' hvalues) hmn
            exact ⟨⟨encode_injective hkey, hvalue⟩, hrest⟩
    | _ => cases hkind

theorem hashJson_canonicalOrder {v : Json} (hv : v.Keyed) :
    hashJson (canonicalOrder v) = hashJson v := by
  induction v using Json.induction with
  | array items ih =>
    have hvalues : items.map (hashJson ∘ canonicalOrder) = items.map hashJson :=
      List.map_congr_left fun v hmem => ih v hmem (Json.keyed_array.1 hv v hmem)
    rw [canonicalOrder, hashJson, hashJson, hashItems_eq_map, hashItems_eq_map, orderItems_eq_map,
      List.map_map, hvalues]
  | object ms ih =>
    obtain ⟨hnodup, hms⟩ := Json.keyed_object.1 hv
    have hkeys : ((ms.map fun m => (m.1, hashJson m.2)).map Prod.fst).Nodup := by
      rwa [List.map_map]
    have hvalues : (orderMembers ms).map (fun m => (m.1, hashJson m.2)) =
        ms.map fun m => (m.1, hashJson m.2) := by
      rw [orderMembers_eq_map, List.map_map]
      refine List.map_congr_left fun m hmem => ?_
      exact Prod.ext rfl (ih m hmem (hms m hmem))
    have hperm := (perm_sortMembers (orderMembers ms)).symm.map fun m => (m.1, hashJson m.2)
    rw [hvalues] at hperm
    rw [canonicalOrder, hashJson, hashJson, hashMembers_eq_map, hashMembers_eq_map,
      sortOn_eq_of_perm hkeys hperm]
  | _ => rfl

theorem hashJson_eq_of_sameValue {v w : Json} (h : Json.SameValue v w) (hv : v.Keyed) :
    hashJson v = hashJson w := by
  rw [← hashJson_canonicalOrder hv, canonicalOrder_eq_of_sameValue h hv,
    hashJson_canonicalOrder (h.keyed hv)]

end JsonValues

/-- All numbers are in the range of their type. -/
inductive Yaml.InRange : Yaml → Prop
  | null : InRange .null
  | bool (b : Bool) : InRange (.bool b)
  | number {n : Number} (h : Number.InRange n) : InRange (.number n)
  | string (s : String) : InRange (.string s)
  | sequence {items : List Yaml} (h : ∀ v ∈ items, InRange v) : InRange (.sequence items)
  | mapping {entries : List (Yaml × Yaml)} (hk : ∀ e ∈ entries, InRange e.1)
      (hv : ∀ e ∈ entries, InRange e.2) : InRange (.mapping entries)
  | tagged (tag : String) {v : Yaml} (h : InRange v) : InRange (.tagged tag v)

def yamlKind : Yaml → ℕ
  | .null => 0
  | .bool _ => 1
  | .number _ => 2
  | .string _ => 6
  | .sequence _ => 7
  | .mapping _ => 8
  | .tagged _ _ => 9

theorem announces_hashYaml : Announces hashYaml tagKind yamlKind := by
  intro v
  cases v with
  | number n => exact hashNumber_eq_cons n
  | _ => exact ⟨_, _, rfl, rfl⟩

theorem hashYaml_append_inj {v : Yaml} (hv : v.InRange) (hlv : (hashYaml v).length < 2 ^ 64)
    {w : Yaml} (hw : w.InRange) (hlw : (hashYaml w).length < 2 ^ 64) {r s : List UInt8}
    (h : hashYaml v ++ r = hashYaml w ++ s) : v.SameValue w ∧ r = s := by
  induction v using Yaml.induction generalizing w r s with
    have hkind := announces_hashYaml.kind_eq h
  | null =>
    cases w with
    | null => exact ⟨rfl, List.append_cancel_left h⟩
    | _ => cases hkind
  | bool b =>
    cases w with
    | bool b' =>
      obtain ⟨rfl, hrest⟩ := hashBool_append_inj h
      exact ⟨rfl, hrest⟩
    | _ => cases hkind
  | number n =>
    cases w with
    | number n' =>
      cases hv with
      | number hn =>
        cases hw with
        | number hn' =>
          obtain ⟨rfl, hrest⟩ := hashNumber_append_inj hn hn' h
          exact ⟨rfl, hrest⟩
    | _ => cases hkind
  | string text =>
    cases w with
    | string text' =>
      obtain ⟨rfl, hrest⟩ := hashText_append_inj hlv hlw h
      exact ⟨rfl, hrest⟩
    | _ => cases hkind
  | sequence items ih =>
    cases w with
    | sequence items' =>
      cases hv with
      | sequence hv =>
        cases hw with
        | sequence hw =>
          rw [hashYaml_sequence, List.length_cons] at hlv hlw
          rw [hashYaml_sequence, hashYaml_sequence, List.cons_append, List.cons_append,
            List.cons.injEq] at h
          obtain ⟨hitems, hrest⟩ := counted64_append_inj (by omega) (by omega) announces_hashYaml.ne_nil
            (fun x hx y hy hxl hyl r s hxy => ih x hx (hv x hx) hxl (hw y hy) hyl hxy) h.2
          exact ⟨⟨items', rfl, Yaml.sameItems_iff.2 hitems⟩, hrest⟩
    | _ => cases hkind
  | mapping es ih =>
    cases w with
    | mapping es' =>
      cases hv with
      | mapping hk hv =>
        cases hw with
        | mapping hk' hw =>
          rw [hashYaml_mapping, List.length_cons] at hlv hlw
          rw [hashYaml_mapping, hashYaml_mapping, List.cons_append, List.cons_append,
            List.cons.injEq] at h
          have hread := counted64_append_inj (R := Yaml.SameEntry) (by omega) (by omega)
            (fun e hnil => hashBytes_ne_nil _ (List.append_eq_nil_iff.1 hnil).1)
            (fun e he e' he' hle hle' r s hee' => ?_) h.2
          · obtain ⟨ordered, hsame, hperm⟩ :=
              List.perm_comp_forall₂ (perm_sortOn _ es).symm hread.1
            exact ⟨⟨es', ordered, rfl, hperm.trans (perm_sortOn _ es'),
              Yaml.sameEntries_iff.2 hsame⟩, hread.2⟩
          · rw [mem_sortOn] at he he'
            obtain ⟨⟨hbytes, hvalue⟩, hrest⟩ := hashBytes_append_value_inj hashYaml hle hle'
              (fun hl hl' r s hvalues =>
                (ih e he).2 (hv e he) hl (hw e' he') hl' hvalues) hee'
            rw [List.length_append, length_hashBytes] at hle hle'
            have hkey := (ih e he).1 (r := []) (s := []) (hk e he) (by omega) (hk' e' he')
              (by omega) (by rw [hbytes])
            exact ⟨⟨hkey.1, hvalue⟩, hrest⟩
    | _ => cases hkind
  | tagged tag v ih =>
    cases w with
    | tagged tag' w =>
      cases hv with
      | tagged _ hv =>
        cases hw with
        | tagged _ hw =>
          simp only [hashYaml, List.length_cons] at hlv hlw
          simp only [hashYaml, List.cons_append, List.cons.injEq, true_and] at h
          obtain ⟨⟨htag, hvalue⟩, hrest⟩ := hashBytes_append_value_inj hashYaml (by omega)
            (by omega) (fun hl hl' r s hvalues => ih hv hl hw hl' hvalues) h
          have htags : tag = tag' := by
            have hmarked := encode_injective htag
            rw [← String.toList_inj, String.toList_append, String.toList_append] at hmarked
            exact String.toList_inj.1 (List.append_cancel_left hmarked)
          rw [htags]
          exact ⟨⟨w, rfl, hvalue⟩, hrest⟩
    | _ => cases hkind

theorem map_eq_map_of_forall₂ {α β : Type*} {R : α → α → Prop} {f : α → β} {l m : List α}
    (h : List.Forall₂ R l m) (hf : ∀ x ∈ l, ∀ y, R x y → f x = f y) : l.map f = m.map f := by
  have hboth := (List.forall₂_and_left l m).2 ⟨hf, h⟩
  rw [← List.forall₂_eq_eq_eq, List.forall₂_map_left_iff, List.forall₂_map_right_iff]
  exact hboth.imp fun x y hxy => hxy.1 y hxy.2

theorem nodup_hashYaml_keys {es : List (Yaml × Yaml)}
    (hkeys : es.Pairwise fun e e' => ¬ e.1.SameValue e'.1) (hrange : ∀ e ∈ es, e.1.InRange)
    (hlength : ∀ e ∈ es, (hashYaml e.1).length < 2 ^ 64) :
    (es.map fun e => byteOrder (hashYaml e.1)).Nodup := by
  rw [List.Nodup, List.pairwise_map]
  refine hkeys.imp_of_mem fun he he' hne heq => hne ?_
  have hbytes := List.map_injective_iff.2 (fun _ _ => UInt8.toNat_inj.1) heq
  exact (hashYaml_append_inj (r := []) (s := []) (hrange _ he) (hlength _ he) (hrange _ he')
    (hlength _ he') (by rw [hbytes])).1

theorem hashYaml_eq_of_sameValue {v w : Yaml} (hv : v.Keyed) (hrange : v.InRange)
    (hlength : (hashYaml v).length < 2 ^ 64) (h : v.SameValue w) : hashYaml v = hashYaml w := by
  induction v using Yaml.induction generalizing w with
  | sequence items ih =>
    obtain ⟨items', rfl, hitems⟩ := h
    cases hv with
    | sequence hv =>
      cases hrange with
      | sequence hrange =>
        rw [hashYaml_sequence, List.length_cons, length_counted] at hlength
        have hmap := map_eq_map_of_forall₂ (f := hashYaml) (Yaml.sameItems_iff.1 hitems)
          fun x hx y hxy => by
            have hle := length_le_of_mem_flatMap hashYaml hx
            exact ih x hx (hv x hx) (hrange x hx) (by omega) hxy
        rw [hashYaml, hashYaml, hashSequence_eq_map, hashSequence_eq_map, hmap]
  | mapping es ih =>
    obtain ⟨es', ordered, rfl, hperm, hsame⟩ := h
    cases hv with
    | mapping hkeys hk hv =>
      cases hrange with
      | mapping hrk hrv =>
        rw [hashYaml_mapping, List.length_cons, length_counted] at hlength
        have hentry : ∀ e ∈ es,
            (hashYaml e.1).length < 2 ^ 64 ∧ (hashYaml e.2).length < 2 ^ 64 := by
          intro e he
          have hsorted : e ∈ sortOn (fun e => byteOrder (hashYaml e.1)) es := mem_sortOn.2 he
          have hle := length_le_of_mem_flatMap
            (fun e : Yaml × Yaml => hashBytes (hashYaml e.1) ++ hashYaml e.2) hsorted
          rw [List.length_append, length_hashBytes] at hle
          omega
        have hmap := map_eq_map_of_forall₂ (f := fun e => (hashYaml e.1, hashYaml e.2))
          (Yaml.sameEntries_iff.1 hsame) fun e he e' hee' => by
            rw [(ih e he).1 (hk e he) (hrk e he) (hentry e he).1 hee'.1,
              (ih e he).2 (hv e he) (hrv e he) (hentry e he).2 hee'.2]
        have hnodup := nodup_hashYaml_keys hkeys hrk fun e he => (hentry e he).1
        rw [hashYaml, hashYaml, hashEntries_eq_map, hashEntries_eq_map,
          sortOn_eq_of_perm (by rwa [List.map_map]) (hmap ▸ hperm.map _)]
  | tagged tag v ih =>
    obtain ⟨v', rfl, hvalue⟩ := h
    cases hv with
    | tagged _ hv =>
      cases hrange with
      | tagged _ hrange =>
        rw [hashYaml, List.length_cons, List.length_append] at hlength
        rw [hashYaml, hashYaml, ih hv hrange (by omega) hvalue]
  | _ => rw [h]

section Attributes

def AttributeValue.InRange : AttributeValue → Prop
  | .int n => -2 ^ 63 ≤ n ∧ n < 2 ^ 63
  | _ => True

/-- `members` lists every set without repetition. -/
def ListsSets (members : Finset String → List String) : Prop :=
  ∀ set, (members set).Nodup ∧ ∀ x, x ∈ members set ↔ x ∈ set

variable {members members' : Finset String → List String}

theorem hashAttr_congr (h : ListsSets members) (h' : ListsSets members') (a : AttributeValue) :
    hashAttr members a = hashAttr members' a := by
  cases a with
  | stringSet set =>
    have hperm : (members set).Perm (members' set) :=
      (List.perm_ext_iff_of_nodup (h set).1 (h' set).1).2 fun x =>
        ((h set).2 x).trans ((h' set).2 x).symm
    rw [hashAttr, hashAttr, sortOn_eq_of_perm (by rw [List.map_id]; exact (h set).1) hperm]
  | _ => rfl

def attrTag : AttributeValue → UInt8
  | .bool _ => 0
  | .int _ => 1
  | .float _ => 2
  | .string _ => 3
  | .stringSet _ => 4
  | .nonScalar => 5

variable {r s : List UInt8}

theorem hashAttr_append_inj (hmembers : ListsSets members) {a b : AttributeValue} (ha : a.InRange)
    (hla : (hashAttr members a).length < 2 ^ 64) (hb : b.InRange)
    (hlb : (hashAttr members b).length < 2 ^ 64)
    (h : hashAttr members a ++ r = hashAttr members b ++ s) : a = b ∧ r = s := by
  have hannounces : Announces (hashAttr members) id attrTag := by
    intro a
    cases a <;> exact ⟨_, _, rfl, rfl⟩
  have htag := hannounces.kind_eq h
  cases a with
  | bool x =>
    cases b with
    | bool y =>
      obtain ⟨rfl, hrest⟩ := hashBool_append_inj h
      exact ⟨rfl, hrest⟩
    | _ => cases htag
  | int x =>
    cases b with
    | int y =>
      obtain ⟨hbytes, hrest⟩ := List.append_inj (List.cons.inj h).2 (by simp)
      rw [i64Bytes_inj ha hb hbytes]
      exact ⟨rfl, hrest⟩
    | _ => cases htag
  | float x =>
    cases b with
    | float y =>
      obtain ⟨hbytes, hrest⟩ := List.append_inj (List.cons.inj h).2 (by simp)
      rw [f64Bytes_inj hbytes]
      exact ⟨rfl, hrest⟩
    | _ => cases htag
  | string x =>
    cases b with
    | string y =>
      obtain ⟨rfl, hrest⟩ := hashText_append_inj hla hlb h
      exact ⟨rfl, hrest⟩
    | _ => cases htag
  | stringSet x =>
    cases b with
    | stringSet y =>
      simp only [hashAttr, List.length_cons] at hla hlb
      obtain ⟨hsame, hrest⟩ := counted64_append_inj (R := Eq) (by omega) (by omega)
        (fun m => hashBytes_ne_nil (encode m))
        (fun m _ m' _ hl hl' r s hmm' => by
          obtain ⟨hbytes, hrest⟩ := hashBytes_append_inj hl hl' hmm'
          exact ⟨encode_injective hbytes, hrest⟩) (List.cons.inj h).2
      rw [List.forall₂_eq_eq_eq] at hsame
      have hsets : x = y := by
        ext m
        have hsorted : m ∈ sortOn id (members x) ↔ m ∈ sortOn id (members y) := by rw [hsame]
        rwa [mem_sortOn, mem_sortOn, (hmembers x).2, (hmembers y).2] at hsorted
      rw [hsets]
      exact ⟨rfl, hrest⟩
    | _ => cases htag
  | nonScalar =>
    cases b with
    | nonScalar => exact ⟨rfl, List.append_cancel_left h⟩
    | _ => cases htag

def AttributeBag.InRange (bag : AttributeBag) : Prop :=
  ∀ key value, bag.attrs.lookup key = some value → value.InRange

variable {entries entries' : List (String × AttributeValue)}

theorem hashBag_append_inj {bag bag' : AttributeBag} (hmembers : ListsSets members)
    (hentries : Enumerates entries bag.attrs)
    (hentries' : Enumerates entries' bag'.attrs) (hbag : bag.InRange) (hbag' : bag'.InRange)
    (hl : (hashBag members entries).length < 2 ^ 64)
    (hl' : (hashBag members entries').length < 2 ^ 64)
    (h : hashBag members entries ++ r = hashBag members entries' ++ s) : bag = bag' ∧ r = s := by
  obtain ⟨hsame, hrest⟩ := counted64_append_inj (R := Eq) hl hl'
    (fun e hnil => hashBytes_ne_nil _ (List.append_eq_nil_iff.1 hnil).1)
    (fun e he e' he' hle hle' r s hee' => by
      rw [mem_sortOn] at he he'
      obtain ⟨⟨hkey, hvalue⟩, hrest⟩ := hashBytes_append_value_inj (R := Eq) (hashAttr members)
        hle hle' (fun hl hl' r s hvalues => hashAttr_append_inj hmembers
          (hbag _ _ ((hentries.mem_iff _ _).1 he)) hl
          (hbag' _ _ ((hentries'.mem_iff _ _).1 he')) hl' hvalues) hee'
      exact ⟨Prod.ext (encode_injective hkey) hvalue, hrest⟩) h
  rw [List.forall₂_eq_eq_eq] at hsame
  refine ⟨?_, hrest⟩
  obtain ⟨attrs⟩ := bag
  obtain ⟨attrs'⟩ := bag'
  congr 1
  refine Finmap.ext_lookup fun key => Option.ext fun value => ?_
  have hsorted : (key, value) ∈ sortOn Prod.fst entries ↔ (key, value) ∈ sortOn Prod.fst entries' := by
    rw [hsame]
  rwa [mem_sortOn, mem_sortOn, hentries.mem_iff, hentries'.mem_iff] at hsorted

theorem hashBag_congr {bag : AttributeBag}
    (h : ListsSets members) (h' : ListsSets members') (hentries : Enumerates entries bag.attrs)
    (hentries' : Enumerates entries' bag.attrs) :
    hashBag members entries = hashBag members' entries' := by
  have hperm : entries.Perm entries' :=
    (List.perm_ext_iff_of_nodup hentries.nodup.of_map hentries'.nodup.of_map).2
      (hentries.mem_congr hentries')
  rw [hashBag, hashBag, sortOn_eq_of_perm hentries.nodup hperm]
  simp only [hashAttr_congr h h']

end Attributes

section Questions

variable {r s : List UInt8} {a b : Option Json}

theorem hashDialect_append_inj {d d' : PdpDialect} (hl : (hashDialect d).length < 2 ^ 64)
    (hl' : (hashDialect d').length < 2 ^ 64)
    (h : hashDialect d ++ r = hashDialect d' ++ s) : d = d' ∧ r = s := by
  cases d with
  | custom name =>
    cases d' with
    | custom name' =>
      obtain ⟨rfl, hrest⟩ := hashText_append_inj hl hl' h
      exact ⟨rfl, hrest⟩
    | _ => simp [hashDialect] at h
  | _ => cases d' <;> simp_all [hashDialect]

theorem hashOptionalJson_append_inj (ha : ∀ v ∈ a, Json.InRange v)
    (hla : (hashOptionalJson a).length < 2 ^ 64) (hb : ∀ v ∈ b, Json.InRange v)
    (hlb : (hashOptionalJson b).length < 2 ^ 64)
    (h : hashOptionalJson a ++ r = hashOptionalJson b ++ s) :
    Option.Rel Json.SameValue a b ∧ r = s := by
  have hoptional : ∀ o, hashOptionalJson o = optional hashJson o := by rintro (_ | _) <;> rfl
  rw [hoptional, hoptional] at h
  refine optional_append_inj (fun v hv w hw r s => ?_) h
  cases hv
  cases hw
  simp only [hashOptionalJson, List.length_cons] at hla hlb
  exact hashJson_append_inj (ha v rfl) (by omega) (hb w rfl) (by omega)

theorem hashOptionalJson_eq_of_rel (ha : ∀ v ∈ a, v.Keyed)
    (h : Option.Rel Json.SameValue a b) : hashOptionalJson a = hashOptionalJson b := by
  cases h with
  | none => rfl
  | some hsame =>
    rw [hashOptionalJson, hashOptionalJson, hashJson_eq_of_sameValue hsame (ha _ rfl)]

/-- Numbers are in range, and no key is there twice. -/
structure TypedEvaluation extends PdpEvaluation where
  keyed_args : call.args.Keyed
  inRange_args : call.args.InRange
  inRange_bag : bag.InRange
  keyed_llmRequest : ∀ v ∈ structured.llmRequest, v.Keyed
  inRange_llmRequest : ∀ v ∈ structured.llmRequest, Json.InRange v
  keyed_structuredArgs : ∀ v ∈ structured.args, v.Keyed
  inRange_structuredArgs : ∀ v ∈ structured.args, Json.InRange v

/-- Up to the order of maps and sets. Floats are equal when their bits are. -/
structure PdpEvaluation.SameQuestion (e e' : PdpEvaluation) : Prop where
  dialect : e.call.dialect = e'.call.dialect
  args : e.call.args.SameValue e'.call.args
  bag : e.bag = e'.bag
  tooDeep : e.structured.tooDeep = e'.structured.tooDeep
  llmRequest : Option.Rel Json.SameValue e.structured.llmRequest e'.structured.llmRequest
  structuredArgs : Option.Rel Json.SameValue e.structured.args e'.structured.args

theorem IterationOrder.listsSets {bag : AttributeBag} (order : IterationOrder bag) :
    ListsSets order.members :=
  fun set => ⟨order.nodup_members set, order.mem_members set⟩

variable {e e' : TypedEvaluation}

theorem preimage_eq_of_sameQuestion {order : IterationOrder e.bag}
    {order' : IterationOrder e'.bag} (hlength : (e.preimage order).length < 2 ^ 64)
    (h : e.SameQuestion e'.toPdpEvaluation) : e.preimage order = e'.preimage order' := by
  simp only [PdpEvaluation.preimage, List.length_append] at hlength
  have hargs := hashYaml_eq_of_sameValue e.keyed_args e.inRange_args (by omega) h.args
  have hbag := hashBag_congr order.listsSets order'.listsSets order.enumerates
    (by rw [h.bag]; exact order'.enumerates)
  have hstructured : hashStructured e.structured = hashStructured e'.structured := by
    rw [hashStructured, hashStructured, h.tooDeep,
      hashOptionalJson_eq_of_rel e.keyed_llmRequest h.llmRequest,
      hashOptionalJson_eq_of_rel e.keyed_structuredArgs h.structuredArgs]
  rw [PdpEvaluation.preimage, PdpEvaluation.preimage, h.dialect, hargs, hbag, hstructured]

theorem sameQuestion_of_preimage_eq {order : IterationOrder e.bag}
    {order' : IterationOrder e'.bag} (hl : (e.preimage order).length < 2 ^ 64)
    (hl' : (e'.preimage order').length < 2 ^ 64) (h : e.preimage order = e'.preimage order') :
    e.SameQuestion e'.toPdpEvaluation := by
  -- both bags are read with the first order of sets
  have hbag : hashBag order'.members order'.entries = hashBag order.members order'.entries :=
    hashBag_congr order'.listsSets order.listsSets order'.enumerates order'.enumerates
  simp only [PdpEvaluation.preimage, hbag, hashStructured, List.length_append,
    List.length_cons] at h hl hl'
  obtain ⟨hdialect, h⟩ := hashDialect_append_inj (by omega) (by omega) h
  obtain ⟨hargs, h⟩ := hashYaml_append_inj e.inRange_args (by omega) e'.inRange_args (by omega) h
  obtain ⟨hbags, h⟩ := hashBag_append_inj order.listsSets order.enumerates order'.enumerates
    e.inRange_bag e'.inRange_bag (by omega) (by omega) h
  obtain ⟨hdeep, h⟩ := List.cons.inj h
  obtain ⟨hrequest, h⟩ := hashOptionalJson_append_inj e.inRange_llmRequest (by omega)
    e'.inRange_llmRequest (by omega) h
  obtain ⟨hlast, -⟩ := hashOptionalJson_append_inj (r := []) (s := []) e.inRange_structuredArgs
    (by omega) e'.inRange_structuredArgs (by omega) (by rw [h])
  exact ⟨hdialect, hargs, hbags, boolByte_inj hdeep, hrequest, hlast⟩

/-- With a collision-free digest the key says exactly which question was asked. -/
theorem cacheKey_eq_iff_sameQuestion [DigestBackend]
    (hfree : ∀ a b digest, DigestBackend.sha256 a = .ok digest →
      DigestBackend.sha256 b = .ok digest → a = b)
    (e e' : TypedEvaluation) (order : IterationOrder e.bag) (order' : IterationOrder e'.bag)
    (hl : (e.preimage order).length < 2 ^ 64) (hl' : (e'.preimage order').length < 2 ^ 64) :
    (e.SameQuestion e'.toPdpEvaluation → e.cacheKey order = e'.cacheKey order') ∧
      ∀ key, e.cacheKey order = .ok key → e'.cacheKey order' = .ok key →
        e.SameQuestion e'.toPdpEvaluation := by
  constructor
  · intro hsame
    have hpreimage : e.preimage order = e'.preimage order' := preimage_eq_of_sameQuestion hl hsame
    rw [PdpEvaluation.cacheKey, PdpEvaluation.cacheKey, hpreimage]
  · intro key hkey hkey'
    exact sameQuestion_of_preimage_eq hl hl' (hfree _ _ key hkey hkey')

/-- A digest that is its own input. -/
local instance wholeDigest : DigestBackend where
  CryptoError := Empty
  sha256 := .ok

def sampleBag : AttributeBag := AttributeBag.empty.set "subject.id" (.string "alice")

theorem lookup_sampleBag (key : String) (value : AttributeValue) :
    sampleBag.attrs.lookup key = some value ↔ key = "subject.id" ∧ value = .string "alice" := by
  rw [sampleBag, AttributeBag.set, lookup_insert_eq]
  split_ifs with h
  · simp [h, eq_comm]
  · simp [h, AttributeBag.empty]

def sampleOrder : IterationOrder sampleBag where
  entries := [("subject.id", .string "alice")]
  members := sortedTexts
  enumerates := ⟨by decide, fun key value => by rw [lookup_sampleBag]; simp⟩
  nodup_members := nodup_sortedTexts
  mem_members _ _ := mem_sortedTexts

def sampleQuestion (key key' : String) (h : key ≠ key') : TypedEvaluation where
  call := ⟨.custom "local", .mapping [(.string key, .bool true), (.string key', .null)]⟩
  bag := sampleBag
  structured := ⟨none, some (.bool true), false⟩
  keyed_args := .mapping (by simp [Yaml.SameValue, h.symm])
    (by simp [Yaml.Keyed.string]) (by simp [Yaml.Keyed.bool, Yaml.Keyed.null])
  inRange_args := .mapping (by simp [Yaml.InRange.string])
    (by simp [Yaml.InRange.bool, Yaml.InRange.null])
  inRange_bag key value hlookup := by
    rw [((lookup_sampleBag key value).1 hlookup).2]
    trivial
  keyed_llmRequest := by simp
  inRange_llmRequest := by simp
  keyed_structuredArgs := by simp [Json.Keyed.bool]
  inRange_structuredArgs := by simp [Json.InRange.bool]

theorem sampleQuestion_swapped :
    (sampleQuestion "a" "b" (by decide)).cacheKey sampleOrder ≠
      (sampleQuestion "b" "a" (by decide)).cacheKey sampleOrder := by
  intro h
  have hsame := (cacheKey_eq_iff_sameQuestion (fun a b digest ha hb => by
    rw [Except.ok.inj ha, Except.ok.inj hb]) (sampleQuestion "a" "b" (by decide))
    (sampleQuestion "b" "a" (by decide)) sampleOrder sampleOrder (by decide +kernel)
    (by decide +kernel)).2 _ rfl h.symm
  have hargs := hsame.args
  simp only [sampleQuestion, Yaml.SameValue, Yaml.SameEntries, Yaml.mapping.injEq, existsAndEq,
    and_true, true_and] at hargs
  have hmem := hargs.subset List.mem_cons_self
  simp at hmem

end Questions

end PraxisPolicy
