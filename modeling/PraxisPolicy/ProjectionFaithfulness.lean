import PraxisPolicy.AttributeProjection
import PraxisPolicy.JsonPositions

/-!
# When the projection is faithful

A key may itself contain dots, so two members of one payload can be written under the same bag key.
The same goes for the names of claims and headers.
-/

namespace PraxisPolicy

open BinaryFloats HashMaps JsonValues TextScanning

section KeyPaths

mutual

def keyPathValues : Json → List (List String × Json)
  | .object members => ([], .object members) :: memberPathValues members
  | v => [([], v)]

def memberPathValues : List (String × Json) → List (List String × Json)
  | [] => []
  | (key, sub) :: members =>
    (keyPathValues sub).map (fun e => (key :: e.1, e.2)) ++ memberPathValues members

end

/-- No object repeats a key, as in every parsed document. -/
def UniqueKeys (v : Json) : Prop :=
  ∀ members, Json.Within (.object members) v → (members.map Prod.fst).Nodup

variable {members : List (String × Json)}

theorem lookup_of_mem {key : String} {x : Json} (hnodup : (members.map Prod.fst).Nodup)
    (h : (key, x) ∈ members) :
    members.lookup key = some x := by
  induction members with
  | nil => simp at h
  | cons e members ih =>
    obtain ⟨hfresh, hrest⟩ := List.nodup_cons.mp hnodup
    obtain ⟨k, v⟩ := e
    rcases List.mem_cons.mp h with hhead | htail
    · cases hhead
      exact List.lookup_cons_self
    · have hne : key ≠ k := by
        rintro rfl
        exact hfresh (List.mem_map.mpr ⟨_, htail, rfl⟩)
      rw [lookup_cons_eq, if_neg hne]
      exact ih hrest htail

theorem UniqueKeys.nodup (h : UniqueKeys (.object members)) :
    (members.map Prod.fst).Nodup :=
  h members (.refl _)

theorem UniqueKeys.member {e : String × Json} (h : UniqueKeys (.object members))
    (he : e ∈ members) : UniqueKeys e.2 :=
  fun members' hwithin => h members' (.member (lookup_of_mem h.nodup he) hwithin)

theorem UniqueKeys.object (hnodup : (members.map Prod.fst).Nodup)
    (h : ∀ e ∈ members, UniqueKeys e.2) :
    UniqueKeys (.object members) := by
  intro members' hwithin
  cases hwithin with
  | refl => exact hnodup
  | member hv hwithin => exact h _ (mem_of_lookup hv) members' hwithin

theorem uniqueKeys_number (n : Number) : UniqueKeys (.number n) := nofun

theorem mem_memberPathValues {e : List String × Json} :
    e ∈ memberPathValues members ↔
      ∃ m ∈ members, ∃ e' ∈ keyPathValues m.2, e = (m.1 :: e'.1, e'.2) := by
  induction members with
  | nil => simp [memberPathValues]
  | cons m members ih =>
    simp only [memberPathValues, List.mem_append, List.mem_map, ih, List.mem_cons,
      exists_eq_or_imp, @eq_comm _ e]

theorem mem_keyPathValues {v : Json} (hunique : UniqueKeys v) (path : List String) (x : Json) :
    (path, x) ∈ keyPathValues v ↔ follow v (path.map Step.key) = some x := by
  induction v using Json.induction generalizing path with
  | object members ih =>
    rw [keyPathValues, List.mem_cons, mem_memberPathValues]
    cases path with
    | nil => simp [eq_comm]
    | cons key path =>
      simp only [List.map_cons, follow]
      constructor
      · rintro (heq | ⟨m, hm, e, he, heq⟩)
        · cases heq
        · cases heq
          rw [lookup_of_mem hunique.nodup hm]
          exact (ih m hm (hunique.member hm) _).mp he
      · intro h
        obtain ⟨child, hchild, hrest⟩ := Option.bind_eq_some_iff.mp h
        have hmem := mem_of_lookup hchild
        have hbelow := (ih _ hmem (hunique.member hmem) path).mpr hrest
        exact .inr ⟨(key, child), hmem, (path, x), hbelow, rfl⟩
  | null | bool _ | number _ | string _ | array _ _ =>
    cases path <;> simp [keyPathValues, follow, eq_comm]

theorem nodup_memberPathValues (hnodup : (members.map Prod.fst).Nodup)
    (h : ∀ m ∈ members, ((keyPathValues m.2).map Prod.fst).Nodup) :
    ((memberPathValues members).map Prod.fst).Nodup := by
  induction members with
  | nil => simp [memberPathValues]
  | cons m members ih =>
    obtain ⟨hfresh, hrest⟩ := List.nodup_cons.mp hnodup
    rw [memberPathValues, List.map_append, List.nodup_append]
    refine ⟨?_, ih hrest fun m' hm' => h m' (List.mem_cons_of_mem _ hm'), ?_⟩
    · have hbelow := (h m List.mem_cons_self).map (List.cons_injective (a := m.1))
      simpa [List.map_map, Function.comp_def] using hbelow
    · -- the first keys differ, so the paths do
      rintro path hpath path' hpath' rfl
      obtain ⟨e, he, rfl⟩ := List.mem_map.mp hpath
      obtain ⟨e₁, -, rfl⟩ := List.mem_map.mp he
      obtain ⟨e₂, he₂, heq⟩ := List.mem_map.mp hpath'
      obtain ⟨m', hm', e₃, -, rfl⟩ := mem_memberPathValues.mp he₂
      obtain ⟨hkey, -⟩ := List.cons.inj heq
      exact hfresh (List.mem_map.mpr ⟨m', hm', hkey⟩)

theorem nodup_keyPathValues {v : Json} (hunique : UniqueKeys v) :
    ((keyPathValues v).map Prod.fst).Nodup := by
  induction v using Json.induction with
  | object members ih =>
    rw [keyPathValues, List.map_cons, List.nodup_cons]
    refine ⟨?_, nodup_memberPathValues hunique.nodup fun m hm => ih m hm (hunique.member hm)⟩
    intro hroot
    obtain ⟨e, he, heq⟩ := List.mem_map.mp hroot
    obtain ⟨m, -, e', -, rfl⟩ := mem_memberPathValues.mp he
    cases heq
  | null | bool _ | number _ | string _ | array _ _ => simp [keyPathValues]

end KeyPaths

section Payload

variable [Library]

/-- A scalar as itself, an array of scalars and nulls as the set of its printed elements, anything
else the marker. -/
def ImageOf : Json → AttributeValue → Prop
  | .string s, image => image = .string s
  | .bool b, image => image = .bool b
  | .number n, .int i => i * 2 ^ 1074 = n.scaled
  | .number n, .float f => f.scaled = n.scaled
  | .number _, _ => False
  | .array items, image => image = (scalarElements items).elim .nonScalar .stringSet
  | .object _, image | .null, image => image = .nonScalar

/-- A number above `i64` is written as the double next to it. -/
def exactNumber : Json → Bool
  | .number (.posInt n) => n < 2 ^ 63 || (Float64.ofInt n).scaled = n * 2 ^ 1074
  | _ => true

def attributeValue : Json → AttributeValue
  | .string s => .string s
  | .bool b => .bool b
  | .number n => n.asI64.elim (.float n.asF64) .int
  | .array items => (scalarElements items).elim .nonScalar .stringSet
  | .object _ | .null => .nonScalar

theorem imageOf_attributeValue_iff (x : Json) :
    ImageOf x (attributeValue x) ↔ exactNumber x = true := by
  cases x with
  | number n =>
    cases n with
    | posInt n =>
      rw [attributeValue, Number.asI64, exactNumber]
      by_cases hfits : n < 2 ^ 63
      · rw [if_pos hfits, decide_eq_true hfits, Bool.true_or]
        exact iff_of_true rfl rfl
      · rw [if_neg hfits, decide_eq_false hfits, Bool.false_or, decide_eq_true_iff]
        exact Iff.rfl
    | negInt n => exact iff_of_true rfl rfl
    | float f => exact iff_of_true rfl rfl
  | _ => exact iff_of_true rfl rfl

/-- Without a mark, values with no image of their own are left out. -/
def writtenValue (mark : Bool) (x : Json) : Option AttributeValue :=
  match attributeValue x with
  | .nonScalar => if mark then some .nonScalar else none
  | image => some image

theorem writtenValue_marked (x : Json) : writtenValue true x = some (attributeValue x) := by
  rw [writtenValue]
  split <;> simp [*]

omit [Library] in
theorem joinDots_cons_cons (a b : String) (path : List String) :
    joinDots (a :: b :: path) = joinDots ((a ++ "." ++ b) :: path) := by
  apply String.toList_inj.mp
  cases path <;> simp [toList_joinDots, List.intercalate]

omit [Library] in
theorem joinSegment_ne_empty {here : String} (hne : here ≠ "") (key : String) :
    joinSegment here key = here ++ "." ++ key ∧ joinSegment here key ≠ "" := by
  have hjoin : joinSegment here key = here ++ "." ++ key := if_neg hne
  refine ⟨hjoin, fun h => ?_⟩
  rw [hjoin] at h
  simpa using congrArg String.toList h

def pathWrites (mark : Bool) (v : Json) (here : String) : List (String × AttributeValue) :=
  (keyPathValues v).filterMap fun e =>
    (writtenValue mark e.2).map fun image => (joinDots (here :: e.1), image)

/-- The walk writes the image of every key path, under the keys joined with dots. -/
theorem walkInner_eq_pathWrites (mark : Bool) (v : Json) {here : String} (hne : here ≠ "") :
    walkInner mark v here = pathWrites mark v here := by
  have hroot : ∀ text : String, joinDots [text] = text := fun text => by
    apply String.toList_inj.mp
    simp [toList_joinDots, List.intercalate]
  have hleaf : ∀ (x : Json) (here : String), keyPathValues x = [([], x)] →
      pathWrites mark x here = ((writtenValue mark x).map fun image => (here, image)).toList := by
    intro x here hx
    rw [pathWrites, hx]
    cases hvalue : writtenValue mark x <;> simp [hvalue, hroot]
  induction v using Json.induction generalizing here with
  | object members ih =>
    have hmembers : walkMembers mark here members = (memberPathValues members).filterMap fun e =>
        (writtenValue mark e.2).map fun image => (joinDots (here :: e.1), image) := by
      induction members with
      | nil => simp [walkMembers, memberPathValues]
      | cons m members ihm =>
        obtain ⟨hjoin, hne'⟩ := joinSegment_ne_empty hne m.1
        rw [walkMembers, memberPathValues, List.filterMap_append, List.filterMap_map,
          ih m List.mem_cons_self hne', ihm fun m' hm' => ih m' (List.mem_cons_of_mem _ hm')]
        simp [pathWrites, hjoin, joinDots_cons_cons]
    rw [walkInner, hmembers, pathWrites, keyPathValues]
    cases mark <;> simp [writtenValue, attributeValue, hroot, hne]
  | array items _ =>
    rw [walkInner, hleaf _ _ rfl, writtenValue, attributeValue]
    cases scalarElements items <;> cases mark <;> rfl
  | number n =>
    rw [walkInner, hleaf _ _ rfl, writtenValue, attributeValue]
    cases n.asI64 <;> rfl
  | null =>
    rw [hleaf _ _ rfl]
    cases mark <;> rfl
  | bool _ | string _ =>
    rw [hleaf _ _ rfl]
    rfl

theorem walkInner_marked (v : Json) {here : String} (hne : here ≠ "") :
    walkInner true v here =
      (keyPathValues v).map fun e => (joinDots (here :: e.1), attributeValue e.2) := by
  rw [walkInner_eq_pathWrites true v hne, pathWrites]
  simp only [writtenValue_marked, Option.map_some]
  exact congrFun List.filterMap_eq_map _

/-- The bag reads, at every key path, the value that is there, and no other member writes that key.
-/
def FaithfulAt (root : String) (v : Json) (bag : AttributeBag) : Prop :=
  ∀ path x, follow v (path.map Step.key) = some x →
    getConcrete v path = some x ∧
    (∃ image, bag.get (joinDots (root :: path)) = some image ∧ ImageOf x image) ∧
    ∀ path' x', follow v (path'.map Step.key) = some x' →
      joinDots (root :: path') = joinDots (root :: path) → path' = path

def UnambiguousKeys (v : Json) : Prop :=
  ((keyPathValues v).map fun e => joinDots ("" :: e.1)).Nodup

instance (v : Json) : Decidable (UnambiguousKeys v) := inferInstanceAs (Decidable (List.Nodup _))

def ExactNumbers (v : Json) : Prop := ∀ e ∈ keyPathValues v, exactNumber e.2 = true

instance (v : Json) : Decidable (ExactNumbers v) := inferInstanceAs (Decidable (∀ e ∈ _, _))

omit [Library] in
theorem joinDots_root_inj (root : String) (path path' : List String) :
    joinDots (root :: path) = joinDots (root :: path') ↔
      joinDots ("" :: path) = joinDots ("" :: path') := by
  have hsplit : ∀ p : List String,
      (joinDots (root :: p)).toList = root.toList ++ (joinDots ("" :: p)).toList := fun p => by
    cases p <;> simp [toList_joinDots, List.intercalate]
  rw [← String.toList_inj, ← String.toList_inj, hsplit, hsplit, List.append_cancel_left_eq]

theorem faithfulAt_iff {v : Json} (hunique : UniqueKeys v) {root : String} (hroot : root ≠ "")
    (bag : AttributeBag) :
    FaithfulAt root v (bag.setAll (walkInner true v root)) ↔ UnambiguousKeys v ∧ ExactNumbers v := by
  have hmem : ∀ path x, (path, x) ∈ keyPathValues v ↔ follow v (path.map Step.key) = some x :=
    mem_keyPathValues hunique
  have hpaths := nodup_keyPathValues hunique
  have hread : UnambiguousKeys v → ∀ path x, (path, x) ∈ keyPathValues v →
      (bag.setAll (walkInner true v root)).get (joinDots (root :: path)) =
        some (attributeValue x) := by
    intro h path x hx
    have hkeys : ((walkInner true v root).map Prod.fst).Nodup := by
      rw [walkInner_marked v hroot, List.map_map]
      refine (List.nodup_map_iff_inj_on hpaths.of_map).mpr fun e he e' he' heq => ?_
      exact List.inj_on_of_nodup_map h he he' ((joinDots_root_inj root _ _).mp heq)
    rw [AttributeBag.get_setAll, lastWrite_of_nodup hkeys, Option.some_or]
    rw [walkInner_marked v hroot]
    exact List.mem_map.mpr ⟨(path, x), hx, rfl⟩
  constructor
  · intro h
    have hclear : UnambiguousKeys v := by
      refine (List.nodup_map_iff_inj_on hpaths.of_map).mpr fun e he e' he' heq => ?_
      obtain ⟨-, -, honly⟩ := h e.1 e.2 ((hmem _ _).mp he)
      have hpath : e'.1 = e.1 :=
        honly e'.1 e'.2 ((hmem _ _).mp he') ((joinDots_root_inj root _ _).mpr heq.symm)
      exact List.inj_on_of_nodup_map hpaths he he' hpath.symm
    refine ⟨hclear, fun e he => (imageOf_attributeValue_iff e.2).mp ?_⟩
    obtain ⟨-, ⟨image, himage, hof⟩, -⟩ := h e.1 e.2 ((hmem _ _).mp he)
    rw [hread hclear e.1 e.2 he] at himage
    exact Option.some.inj himage ▸ hof
  · rintro ⟨h, hexact⟩ path x hx
    have he := (hmem _ _).mpr hx
    refine ⟨?_, ⟨_, hread h path x he, (imageOf_attributeValue_iff x).mpr (hexact _ he)⟩,
      fun path' x' hx' heq => ?_⟩
    · have htext := getConcrete_text (π := path.map Step.key) (by simp [Step.Fits]) hx
      simpa [Function.comp_def, Step.text] using htext
    · have hsame := List.inj_on_of_nodup_map h ((hmem _ _).mpr hx') he
        ((joinDots_root_inj root _ _).mp heq)
      exact congrArg Prod.fst hsame

end Payload

section Namespaces

def Under (ns key : String) : Prop := ns.toList <+: key.toList

instance (ns key : String) : Decidable (Under ns key) :=
  inferInstanceAs (Decidable (ns.toList <+: key.toList))

theorem under_append (ns key : String) : Under ns (ns ++ key) := by
  simp [Under]

variable {ns ns' key : String}

theorem Under.trans (h : Under ns ns') (h' : Under ns' key) : Under ns key :=
  List.IsPrefix.trans h h'

/-- Namespaces that differ within the length of the shorter one share no key. -/
theorem Under.not_under (h : Under ns key)
    (hlen : ns'.toList.length ≤ ns.toList.length) (hne : ¬ Under ns' ns) : ¬ Under ns' key :=
  fun h' => hne (List.prefix_of_prefix_length_le h' h hlen)

theorem forall_entry {α : Type} {P : String → Prop} {key : String} {f : α → AttributeValue}
    {o : Option α} (h : P key) : ∀ w ∈ entry key f o, P w.1 := by
  cases o <;> simp [entry, h]

theorem under_keyBindingWrites (here : String) (kb : Option KeyBinding) :
    ∀ w ∈ keyBindingWrites here kb, Under here w.1 := by
  cases kb <;> simp [keyBindingWrites, under_append]

theorem under_membershipWrites (ns : String) (names : List String) :
    ∀ w ∈ membershipWrites ns names, Under ns w.1 := by
  intro w hw
  obtain ⟨name, -, hname⟩ := List.mem_flatMap.mp hw
  split at hname
  · obtain rfl := List.mem_singleton.mp hname
    exact under_append ns name
  · cases hname

variable [Library]

theorem under_pathWrites (mark : Bool) (v : Json) (here : String) :
    ∀ w ∈ pathWrites mark v here, Under here w.1 := by
  intro w hw
  obtain ⟨e, -, hwritten⟩ := List.mem_filterMap.mp hw
  obtain ⟨image, -, rfl⟩ := Option.map_eq_some_iff.mp hwritten
  cases e.1 <;> simp [Under, toList_joinDots, List.intercalate]

theorem walk_named {ns : String} (hne : ns ≠ "") (claim : String × Json) :
    walk claim.2 (ns ++ claim.1) = pathWrites false claim.2 (ns ++ claim.1) :=
  walkInner_eq_pathWrites _ _ fun h => hne (String.append_eq_empty_iff.mp h).1

theorem under_claimWrites (ns : String) (hne : ns ≠ "") (claims : List (String × Json)) :
    ∀ w ∈ claimWrites ns claims, Under ns w.1 := by
  intro w hw
  obtain ⟨claim, -, hclaim⟩ := List.mem_flatMap.mp hw
  rw [walk_named hne] at hclaim
  exact (under_append ns claim.1).trans (under_pathWrites false claim.2 _ w hclaim)

theorem under_clientWrites (order : SecurityOrder) (client : ClientExtension) :
    ∀ w ∈ clientWrites order client, Under "client" w.1 := by
  simp only [clientWrites, List.forall_mem_append, List.forall_mem_singleton]
  refine ⟨⟨⟨⟨⟨⟨⟨⟨⟨⟨⟨by decide, forall_entry (by decide)⟩, by decide⟩, by decide⟩, ?_⟩, by decide⟩,
    ?_⟩, by decide⟩, by decide⟩, by decide⟩, ?_⟩, under_keyBindingWrites _ _⟩
  · exact fun w hw => Under.trans (by decide) (under_membershipWrites "client.role." _ w hw)
  · exact fun w hw => Under.trans (by decide) (under_membershipWrites "client.perm." _ w hw)
  · exact fun w hw => Under.trans (by decide) (under_claimWrites "client.claim." (by decide) _ w hw)

theorem under_workloadWrites (here : String) (w : WorkloadIdentity) :
    ∀ e ∈ workloadWrites here w, Under here e.1 := by
  simp only [workloadWrites, List.forall_mem_append, List.forall_mem_singleton]
  exact ⟨⟨⟨⟨⟨⟨⟨forall_entry (under_append _ _), forall_entry (under_append _ _)⟩,
    forall_entry (under_append _ _)⟩, under_append _ _⟩, forall_entry (under_append _ _)⟩,
    under_keyBindingWrites _ _⟩, forall_entry (under_append _ _)⟩, forall_entry (under_append _ _)⟩

theorem not_under_claim_closing (order : SecurityOrder) (sec : SecurityExtension)
    (subject : SubjectExtension) :
    ∀ w ∈ subjectClosingWrites subject ++ principalWrites order sec, ¬ Under "claim." w.1 := by
  have hother : ∀ {ns : String} {writes : List (String × AttributeValue)},
      (∀ w ∈ writes, Under ns w.1) → "claim.".toList.length ≤ ns.toList.length →
      ¬ Under "claim." ns → ∀ w ∈ writes, ¬ Under "claim." w.1 :=
    fun h hlen hne w hw => (h w hw).not_under hlen hne
  simp only [subjectClosingWrites, principalWrites, List.forall_mem_append,
    List.forall_mem_singleton]
  refine ⟨⟨?_, hother (under_keyBindingWrites "subject" _) (by decide) (by decide)⟩,
    ⟨⟨⟨⟨?_, ?_⟩, ?_⟩, forall_entry (P := fun key => ¬ Under "claim." key) (by decide)⟩, by decide⟩,
    forall_entry (P := fun key => ¬ Under "claim." key) (by decide)⟩
  · intro w hw
    split at hw
    · obtain rfl := List.mem_singleton.mp hw
      decide
    · cases hw
  · cases sec.client with
    | none => simp
    | some client => exact hother (under_clientWrites order client) (by decide) (by decide)
  · cases sec.callerWorkload with
    | none => simp
    | some w => exact hother (under_workloadWrites "caller_workload" w) (by decide) (by decide)
  · cases sec.thisWorkload with
    | none => simp
    | some w => exact hother (under_workloadWrites "this_workload" w) (by decide) (by decide)

end Namespaces

section Loops

theorem lastWrite_none_of_not_under {ns key : String} {writes : List (String × AttributeValue)}
    (hkey : Under ns key) (h : ∀ w ∈ writes, ¬ Under ns w.1) : lastWrite key writes = none := by
  refine lastWrite_eq_none_iff.mpr fun hmem => ?_
  obtain ⟨w, hw, rfl⟩ := List.mem_map.mp hmem
  exact h w hw hkey

theorem lastWrite_membershipWrites_congr {ns : String} {names names' : List String}
    (h : names.toFinset = names'.toFinset) (key : String) :
    lastWrite key (membershipWrites ns names) = lastWrite key (membershipWrites ns names') := by
  refine lastWrite_flatMap_congr (fun name => ?_) fun name _ name' _ x y hx hy => ?_
  · rw [← List.mem_toFinset, h, List.mem_toFinset]
  · -- every write of these loops is of `true`
    have htrue : ∀ (n : String) z, lastWrite key
        (if isAtomicMembershipName n then [(ns ++ n, AttributeValue.bool true)] else []) = some z →
        z = .bool true := fun n z hz => by
      have hw := lastWrite_mem hz
      split at hw
      · exact (Prod.mk.inj (List.mem_singleton.mp hw)).2
      · cases hw
    rw [htrue name x hx, htrue name' y hy]

variable [Library]

/-- What the key paths of a claim put under its name. -/
def claimBlock (claim : String × Json) : List (String × AttributeValue) :=
  pathWrites false claim.2 ("claim." ++ claim.1)

theorem claimWrites_eq (claims : List (String × Json)) :
    claimWrites "claim." claims = claims.flatMap claimBlock :=
  List.flatMap_congr fun claim _ => walk_named (by decide) claim

variable {subject : SubjectExtension} {sec : SecurityExtension}

omit [Library] in
theorem subject_lastWrite_congr
    (hsubject : sec.subject = some subject) {o o' : SecurityOrder} (ho : o.Of sec)
    (ho' : o'.Of sec) (key : String) :
    lastWrite key (subjectMembershipWrites o subject) =
      lastWrite key (subjectMembershipWrites o' subject) := by
  have hmem : subject ∈ sec.subject := hsubject
  have hroles := (ho.roles subject hmem).2.trans (ho'.roles subject hmem).2.symm
  have hperms := (ho.permissions subject hmem).2.trans (ho'.permissions subject hmem).2.symm
  have hteams := (ho.teams subject hmem).2.trans (ho'.teams subject hmem).2.symm
  simp only [subjectMembershipWrites, lastWrite_append,
    lastWrite_membershipWrites_congr hroles, lastWrite_membershipWrites_congr hperms,
    lastWrite_membershipWrites_congr hteams]

omit [Library] in
theorem exists_securityOrder (hsubject : sec.subject = some subject) :
    ∃ o : SecurityOrder, ∀ claims, Enumerates claims subject.claims →
      ({ o with claims := claims } : SecurityOrder).Of sec := by
  obtain ⟨clientClaims, hclient⟩ :
      ∃ order, ∀ client ∈ sec.client, Enumerates order client.claims := by
    cases hc : sec.client with
    | none => exact ⟨[], by simp⟩
    | some client =>
      obtain ⟨order, horder⟩ := exists_enumerates client.claims
      exact ⟨order, by simpa using horder⟩
  refine ⟨⟨subject.roles.toList, subject.permissions.toList, subject.teams.toList, [],
    clientClaims⟩, fun claims hclaims => ?_⟩
  have honly : ∀ s ∈ sec.subject, s = subject := fun s hs =>
    (Option.some.inj (hsubject.symm.trans hs)).symm
  refine ⟨?_, ?_, ?_, ?_, hclient⟩ <;> intro s hs <;> obtain rfl := honly s hs
  · exact ⟨s.roles.nodup_toList, s.roles.toList_toFinset⟩
  · exact ⟨s.permissions.nodup_toList, s.permissions.toList_toFinset⟩
  · exact ⟨s.teams.nodup_toList, s.teams.toList_toFinset⟩
  · exact hclaims

/-- The bag does not depend on the order of the subject's claims exactly when key paths that read
the same agree. -/
theorem extractSecurity_order_iff (sec : SecurityExtension) (bag : AttributeBag) :
    (∀ o o' : SecurityOrder, o.Of sec → o'.Of sec → o.clientClaims = o'.clientClaims →
      extractSecurity o sec bag = extractSecurity o' sec bag) ↔
    ∀ subject ∈ sec.subject, BlocksAgree claimBlock subject.claims := by
  cases hsubject : sec.subject with
  | none =>
    refine iff_of_true (fun o o' _ _ hclient => ?_) (by simp)
    have hsame : ∀ client, clientWrites o client = clientWrites o' client := fun client => by
      simp only [clientWrites, hclient]
    simp only [extractSecurity, securityWrites, hsubject, principalWrites, hsame]
  | some subject =>
    simp only [Option.mem_some_iff, forall_eq']
    constructor
    · intro h
      obtain ⟨o, ho⟩ := exists_securityOrder hsubject
      refine blocksAgree_of_order_independent bag.attrs (subjectMembershipWrites o subject)
        (subjectClosingWrites subject ++ principalWrites o sec) ?_ ?_
      · intro claim w _ hw
        have hunder : Under "claim." w.1 :=
          (under_append _ _).trans (under_pathWrites false claim.2 _ w hw)
        exact lastWrite_none_of_not_under hunder (not_under_claim_closing o sec subject)
      · intro order order' henum henum'
        have heq := h _ _ (ho order henum) (ho order' henum') rfl
        simp only [extractSecurity, AttributeBag.setAll, securityWrites, hsubject, claimWrites_eq,
          AttributeBag.mk.injEq] at heq
        exact heq
    · intro hagree o o' ho ho' hclient
      have hsame : principalWrites o sec = principalWrites o' sec := by
        simp only [principalWrites, clientWrites, hclient]
      refine AttributeBag.ext_get fun key => ?_
      have hclaims : lastWrite key (claimWrites "claim." o.claims) =
          lastWrite key (claimWrites "claim." o'.claims) := by
        rw [claimWrites_eq, claimWrites_eq]
        exact hagree.lastWrite_eq (ho.claims subject hsubject) (ho'.claims subject hsubject) key
      simp only [extractSecurity, AttributeBag.get_setAll, securityWrites, hsubject,
        lastWrite_append, hsame, hclaims, subject_lastWrite_congr hsubject ho ho']

abbrev headerBlock (ns : String) (header : String × String) : List (String × AttributeValue) :=
  [(ns ++ Library.toLowercase header.1, .string header.2)]

def HeadersAgree (headers : HashMap String String) : Prop :=
  ∀ name₁ value₁ name₂ value₂, headers.lookup name₁ = some value₁ →
    headers.lookup name₂ = some value₂ →
    Library.toLowercase name₁ = Library.toLowercase name₂ → value₁ = value₂

theorem blocksAgree_headerBlock_iff (ns : String) (headers : HashMap String String) :
    BlocksAgree (headerBlock ns) headers ↔ HeadersAgree headers := by
  constructor
  · intro h name₁ value₁ name₂ value₂ h₁ h₂ heq
    have hvalue := h name₁ value₁ name₂ value₂ h₁ h₂ (ns ++ Library.toLowercase name₁)
      (.string value₁) (.string value₂) (by simp [lastWrite_cons]) (by simp [lastWrite_cons, heq])
    exact AttributeValue.string.inj hvalue
  · intro h name₁ value₁ name₂ value₂ h₁ h₂ key x y hx hy
    obtain ⟨hkey₁, rfl⟩ := Prod.mk.inj (List.mem_singleton.mp (lastWrite_mem hx))
    obtain ⟨hkey₂, rfl⟩ := Prod.mk.inj (List.mem_singleton.mp (lastWrite_mem hy))
    have hlower : Library.toLowercase name₁ = Library.toLowercase name₂ := by
      have := congrArg String.toList (hkey₁.symm.trans hkey₂)
      simpa [String.toList_append, String.toList_inj] using this
    rw [h name₁ value₁ name₂ value₂ h₁ h₂ hlower]

theorem extractHttp_order_iff (http : HttpExtension) (bag : AttributeBag) :
    (∀ o o' : HttpOrder, o.Of http → o'.Of http →
      extractHttp o http bag = extractHttp o' http bag) ↔
    HeadersAgree http.requestHeaders ∧ HeadersAgree http.responseHeaders := by
  rw [← blocksAgree_headerBlock_iff "http.request_headers.",
    ← blocksAgree_headerBlock_iff "http.response_headers."]
  constructor
  · intro h
    have hset : ∀ o o' : HttpOrder, o.Of http → o'.Of http →
        writeAll bag.attrs (httpWrites o http) = writeAll bag.attrs (httpWrites o' http) :=
      fun o o' ho ho' => congrArg AttributeBag.attrs (h o o' ho ho')
    obtain ⟨request, hrequest⟩ := exists_enumerates http.requestHeaders
    obtain ⟨response, hresponse⟩ := exists_enumerates http.responseHeaders
    constructor
    · -- the response headers lie in another namespace
      refine blocksAgree_of_order_independent bag.attrs (requestLineWrites http)
        (headerWrites "http.response_headers." response) ?_ fun order order' ho ho' =>
          hset ⟨order, response⟩ ⟨order', response⟩ ⟨ho, hresponse⟩ ⟨ho', hresponse⟩
      rintro header w - hw
      obtain rfl := List.mem_singleton.mp hw
      refine lastWrite_none_of_not_under (under_append "http.request_headers." _) fun w hw => ?_
      obtain ⟨header', -, hw'⟩ := List.mem_flatMap.mp hw
      obtain rfl := List.mem_singleton.mp hw'
      exact (under_append "http.response_headers." _).not_under (by decide) (by decide)
    · refine blocksAgree_of_order_independent bag.attrs
        (requestLineWrites http ++ headerWrites "http.request_headers." request) [] (by simp)
        fun order order' ho ho' => ?_
      simpa [httpWrites, headerWrites, List.append_assoc] using
        hset ⟨request, order⟩ ⟨request, order'⟩ ⟨hrequest, ho⟩ ⟨hrequest, ho'⟩
  · rintro ⟨hrequest, hresponse⟩ o o' ho ho'
    refine AttributeBag.ext_get fun key => ?_
    have hreq := hrequest.lastWrite_eq ho.requestHeaders ho'.requestHeaders key
    have hresp := hresponse.lastWrite_eq ho.responseHeaders ho'.responseHeaders key
    simp only [extractHttp, AttributeBag.get_setAll, httpWrites, lastWrite_append, headerWrites,
      hreq, hresp]

/-- Payload walks are faithful for unambiguous key paths and exact numbers, and the loops over
claims and headers leave one bag exactly when the entries that share a bag key agree. -/
theorem projection_faithful_iff (v : Json) (hunique : UniqueKeys v) (sec : SecurityExtension)
    (http : HttpExtension) (bag : AttributeBag) :
    (FaithfulAt "args" v (extractArgs v bag) ↔ UnambiguousKeys v ∧ ExactNumbers v) ∧
    (FaithfulAt "result" v (extractResult v bag) ↔ UnambiguousKeys v ∧ ExactNumbers v) ∧
    ((∀ o o' : SecurityOrder, o.Of sec → o'.Of sec → o.clientClaims = o'.clientClaims →
        extractSecurity o sec bag = extractSecurity o' sec bag) ↔
      ∀ subject ∈ sec.subject, BlocksAgree claimBlock subject.claims) ∧
    ((∀ o o' : HttpOrder, o.Of http → o'.Of http →
        extractHttp o http bag = extractHttp o' http bag) ↔
      HeadersAgree http.requestHeaders ∧ HeadersAgree http.responseHeaders) :=
  ⟨faithfulAt_iff hunique (by decide) bag, faithfulAt_iff hunique (by decide) bag,
    extractSecurity_order_iff sec bag, extractHttp_order_iff http bag⟩

end Loops

def shadowedAmount : Json :=
  .object [("transfer", .object [("amount", .number (.posInt 90000))]),
    ("transfer.amount", .number (.posInt 5))]

theorem uniqueKeys_shadowedAmount : UniqueKeys shadowedAmount := by
  refine .object (by decide) (List.forall_mem_cons.mpr ⟨?_, List.forall_mem_singleton.mpr ?_⟩)
  · exact .object (by decide) (List.forall_mem_singleton.mpr (uniqueKeys_number _))
  · exact uniqueKeys_number _

def hugeAmount : Json := .object [("amount", .number (.posInt 9223372036854775809))]

/-- The bag reads 5 for 90000, and the double below an amount beyond `i64`. -/
theorem extractArgs_not_faithful :
    let bagOf v := @extractArgs Library.ascii v AttributeBag.empty
    UniqueKeys shadowedAmount ∧
    getConcrete shadowedAmount ["transfer", "amount"] = some (.number (.posInt 90000)) ∧
    (bagOf shadowedAmount).get "args.transfer.amount" = some (.int 5) ∧
    ¬ @FaithfulAt Library.ascii "args" shadowedAmount (bagOf shadowedAmount) ∧
    (bagOf hugeAmount).get "args.amount" = some (.float (Float64.ofInt 9223372036854775808)) ∧
    ¬ @FaithfulAt Library.ascii "args" hugeAmount (bagOf hugeAmount) := by
  have hread : (@extractArgs Library.ascii shadowedAmount AttributeBag.empty).get
      "args.transfer.amount" = some (.int 5) := by decide
  have hlarge : (@extractArgs Library.ascii hugeAmount AttributeBag.empty).get
      "args.amount" = some (.float (Float64.ofInt 9223372036854775808)) := by decide +kernel
  refine ⟨uniqueKeys_shadowedAmount, rfl, hread, fun h => ?_, hlarge, fun h => ?_⟩
  · obtain ⟨-, ⟨image, himage, hof⟩, -⟩ := h ["transfer", "amount"] (.number (.posInt 90000)) rfl
    obtain rfl := Option.some.inj (hread.symm.trans himage)
    have hsame : (5 : ℤ) * 2 ^ 1074 = (90000 : ℕ) * 2 ^ 1074 := hof
    exact absurd hsame (by decide +kernel)
  · obtain ⟨-, ⟨image, himage, hof⟩, -⟩ :=
      h ["amount"] (.number (.posInt 9223372036854775809)) rfl
    obtain rfl := Option.some.inj (hlarge.symm.trans himage)
    have hsame : (Float64.ofInt 9223372036854775808).scaled =
      (9223372036854775809 : ℕ) * 2 ^ 1074 := hof
    exact absurd hsame (by decide +kernel)

def plainAmount : Json := .object [("transfer", .object [("amount", .number (.posInt 90000))])]

theorem projection_faithful_iff_plainAmount :
    UnambiguousKeys plainAmount ∧ ExactNumbers plainAmount ∧
    @FaithfulAt Library.ascii "args" plainAmount
      (@extractArgs Library.ascii plainAmount AttributeBag.empty) := by
  have hunique : UniqueKeys plainAmount :=
    .object (by decide) (List.forall_mem_singleton.mpr
      (.object (by decide) (List.forall_mem_singleton.mpr (uniqueKeys_number _))))
  have hclear : UnambiguousKeys plainAmount := by decide
  have hexact : ExactNumbers plainAmount := by decide +kernel
  exact ⟨hclear, hexact, (@projection_faithful_iff Library.ascii plainAmount hunique .default
    .default AttributeBag.empty).1.mpr ⟨hclear, hexact⟩⟩

end PraxisPolicy
