import Elucid.HistoricalConversion
import Elucid.JsonDocument

/-!
# What a row keeps of its record

RFC 6901, as a relation between a value, reference tokens and the value they reach : `Resolves`.
`resolvePointer_eq_some_iff` : the resolution of the code is this relation, as long as no array
has more elements than a `usize` counts.

`normalizeRecord_captures` : a row has the conversions of the values at the pointers of its
profile and, as remainder, the members of the object that no pointer addresses with a single
token, so both together still determine the object (`reconstruct`).
-/

namespace Elucid

open BigEndian Rfc8259 List

variable {object : List (Text × Value)} {token : Text} {profile : IngestionProfile}

/-! ## Pointers -/

namespace Rfc6901

/-- The tokens lead from one value to the other. -/
inductive Resolves : Value → List Text → Value → Prop
  | here {value : Value} : Resolves value [] value
  | member {entries : List (Text × Value)} {name : Text} {value target : Value}
    {tokens : List Text} : (name, value) ∈ entries → Resolves value tokens target →
    Resolves (.object entries) (name :: tokens) target
  | element {values : List Value} {index : Nat} {value target : Value} {tokens : List Text} :
    values[index]? = some value → Resolves value tokens target →
    Resolves (.array values) (decimalText index :: tokens) target

/-- Every array inside of the value has fewer elements than the bound. -/
def Narrow (bound : Nat) (value : Value) : Prop :=
  ∀ tokens values, Resolves value tokens (.array values) → values.length < bound

variable {bound : Nat}

theorem Narrow.of_scalar {value : Value} (harray : ∀ values, value ≠ .array values)
    (hobject : ∀ entries, value ≠ .object entries) : Narrow bound value := by
  intro tokens values h
  cases h with
  | here => exact absurd rfl (harray values)
  | member _ _ => exact absurd rfl (hobject _)
  | element _ _ => exact absurd rfl (harray _)

theorem narrow_array_iff {values : List Value} :
    Narrow bound (.array values) ↔
      values.length < bound ∧ ∀ value ∈ values, Narrow bound value := by
  constructor
  · intro h
    refine ⟨h [] values .here, fun value hvalue tokens inner hinner => ?_⟩
    obtain ⟨index, hindex⟩ := getElem?_of_mem hvalue
    exact h _ inner (.element hindex hinner)
  · rintro ⟨hlength, hvalues⟩ tokens inner h
    cases h with
    | here => exact hlength
    | element hvalue hinner => exact hvalues _ (mem_of_getElem? hvalue) _ inner hinner

theorem narrow_object_iff {entries : List (Text × Value)} :
    Narrow bound (.object entries) ↔ ∀ entry ∈ entries, Narrow bound entry.2 := by
  constructor
  · intro h entry hentry tokens inner hinner
    exact h _ inner (.member hentry hinner)
  · intro h tokens inner hinner
    cases hinner with
    | member hentry hrest => exact h _ hentry _ inner hrest

end Rfc6901

open Rfc6901

/-- An array of a record has no more elements than the record has room for. -/
theorem narrow_parseObject [SerdeJson] {record : Bytes} (hlength : record.length < 2 ^ 63)
    (h : JsonParser.parseObject record = some object) :
    Narrow (2 ^ 64) (.object object) := by
  have hbound : 2 * record.length + 1 ≤ 2 ^ 64 - 1 := by omega
  refine JsonParser.parseObject_rule (P := fun _ => Narrow (2 ^ 64)) ?_ ?_ ?_ hbound h
  · exact fun _ _ _ harray hobject => .of_scalar harray hobject
  · intro _ values _ hvalues hall
    exact narrow_array_iff.mpr ⟨by omega, hall⟩
  · exact fun _ _ _ _ hall => narrow_object_iff.mpr hall

/-- `u64::from_str` of a text without a sign. -/
theorem parseU64_of_head? {text : Text} (h : text.head? ≠ some 0x2B) :
    parseU64 text =
      if text ≠ [] ∧ text.all isDigit = true ∧ digitsNat text < 2 ^ 64 then some (digitsNat text)
      else none := by
  by_cases hdigits : text ≠ [] ∧ text.all isDigit = true
  · rw [parseU64_of_all hdigits.1 hdigits.2]
    simp only [hdigits, ne_eq, not_false_eq_true, true_and]
  · rw [if_neg fun hall => hdigits ⟨hall.1, hall.2.1⟩]
    unfold parseU64
    split
    · exact absurd rfl h
    · rw [digitsValue_eq, if_neg hdigits]
      rfl

/-- `parse_array_index` reads the decimal texts. -/
theorem parseArrayIndex_eq_some_iff {index : Nat} :
    parseArrayIndex token = some index ↔ decimalText index = token ∧ index < 2 ^ 64 := by
  rw [decimalText_eq_iff, parseArrayIndex]
  constructor
  · intro h
    split at h
    · cases h
    rename_i hsign
    obtain ⟨hplus, hzero⟩ := not_or.mp hsign
    rw [parseU64_of_head? hplus] at h
    split at h
    · rename_i hdigits
      obtain rfl := Option.some.inj h
      refine ⟨⟨⟨hdigits.1, hdigits.2.1, fun hhead => ?_⟩, rfl⟩, hdigits.2.2⟩
      have hpos := length_pos_of_ne_nil hdigits.1
      by_contra hne
      exact hzero ⟨by omega, hhead⟩
    · cases h
  · rintro ⟨⟨⟨hne, hall, hhead⟩, rfl⟩, hlt⟩
    have hplus : token.head? ≠ some 0x2B := fun heq =>
      (isDigit_ne (all_eq_true.mp hall _ (mem_of_head? heq))).1 rfl
    rw [if_neg, parseU64_of_head? hplus, if_pos ⟨hne, hall, hlt⟩]
    rintro (heq | ⟨hlength, heq⟩)
    · exact hplus heq
    · exact Nat.ne_of_gt hlength (hhead heq)

/-- The code resolves pointers as RFC 6901 says. -/
theorem resolvePointer_eq_some_iff {value target : Value} {tokens : List Text}
    (hsorted : value.Sorted) (hnarrow : Narrow (2 ^ 64) value) :
    resolvePointer value tokens = some target ↔ Resolves value tokens target := by
  induction tokens generalizing value with
  | nil =>
    rw [resolvePointer]
    constructor
    · rintro ⟨⟩
      exact .here
    · rintro ⟨⟩
      rfl
  | cons token tokens ih =>
    cases value with
    | object entries =>
      obtain ⟨hkeys, hentries⟩ := hsorted
      rw [resolvePointer, Option.bind_eq_some_iff]
      constructor
      · rintro ⟨value, hlookup, h⟩
        have hmem := (lookupEntry_eq_some_iff hkeys).mp hlookup
        exact .member hmem ((ih (sortedEntries_iff.mp hentries _ hmem)
          (narrow_object_iff.mp hnarrow _ hmem)).mp h)
      · intro h
        cases h with
        | member hmem hrest =>
          exact ⟨_, (lookupEntry_eq_some_iff hkeys).mpr hmem,
            (ih (sortedEntries_iff.mp hentries _ hmem)
              (narrow_object_iff.mp hnarrow _ hmem)).mpr hrest⟩
    | array values =>
      obtain ⟨hlength, hvalues⟩ := narrow_array_iff.mp hnarrow
      have hinner {value : Value} (hmem : value ∈ values) :=
        ih (sortedValues_iff.mp hsorted value hmem) (hvalues value hmem)
      rw [resolvePointer, Option.bind_eq_some_iff]
      constructor
      · rintro ⟨value, hvalue, h⟩
        obtain ⟨index, hindex, helement⟩ := Option.bind_eq_some_iff.mp hvalue
        obtain ⟨rfl, -⟩ := parseArrayIndex_eq_some_iff.mp hindex
        exact .element helement ((hinner (mem_of_getElem? helement)).mp h)
      · intro h
        cases h with
        | element hvalue hrest =>
          have hindex := (List.getElem?_eq_some_iff.mp hvalue).1
          exact ⟨_, Option.bind_eq_some_iff.mpr ⟨_, parseArrayIndex_eq_some_iff.mpr
            ⟨rfl, hindex.trans hlength⟩, hvalue⟩,
            (hinner (mem_of_getElem? hvalue)).mpr hrest⟩
    | _ => constructor <;> rintro ⟨⟩

/-! ## The object from its parts -/

/-- Two objects in the order of their keys with the same members are one. -/
theorem KeysIncrease.eq_of_mem_iff {entries others : List (Text × Value)}
    (hentries : KeysIncrease entries) (hothers : KeysIncrease others)
    (h : ∀ entry, entry ∈ entries ↔ entry ∈ others) : entries = others := by
  have hnodup {entries : List (Text × Value)} (hkeys : KeysIncrease entries) : entries.Nodup :=
    List.Pairwise.imp (S := (· ≠ ·)) (fun hlt heq => List.lt_irrefl _ (heq ▸ hlt)) hkeys
  have hperm := (List.perm_ext_iff_of_nodup (hnodup hentries) (hnodup hothers)).mpr h
  exact hperm.eq_of_pairwise
    (fun _ _ _ _ hlt hgt => absurd (List.lt_trans hlt hgt) (List.lt_irrefl _)) hentries hothers

/-- The token of a pointer that has a single one. -/
def JsonPointer.singleToken (pointer : JsonPointer) : Option Text :=
  match pointer.tokens with
  | [token] => some token
  | _ => none

/-- The tokens that a profile addresses members of the record with. -/
def IngestionProfile.singleTokens (profile : IngestionProfile) : List Text :=
  ((profile.eventTime.jsonPointer :: profile.mappings.map (·.jsonPointer)).filterMap
    JsonPointer.singleToken).dedup

/-- What is left of an object without the members that a profile addresses. -/
def IngestionProfile.remaining (profile : IngestionProfile) (object : List (Text × Value)) :
    Option (List (Text × Value)) :=
  let members := object.filter fun entry => entry.1 ∉ profile.singleTokens
  if members = [] then none else some members

/-- The object with a remainder and the given values at the single tokens. -/
def IngestionProfile.reconstruct (profile : IngestionProfile)
    (remainder : Option (List (Text × Value))) (valueAt : Text → Option Value) :
    List (Text × Value) :=
  objectOf (remainder.getD [] ++
    profile.singleTokens.filterMap fun token => (valueAt token).map (token, ·))

theorem mem_singleTokens :
    token ∈ profile.singleTokens ↔ profile.eventTime.jsonPointer.tokens = [token] ∨
      ∃ mapping ∈ profile.mappings, mapping.jsonPointer.tokens = [token] := by
  have hsingle (pointer : JsonPointer) :
      pointer.singleToken = some token ↔ pointer.tokens = [token] := by
    obtain ⟨_ | ⟨first, _ | ⟨second, rest⟩⟩⟩ := pointer <;> simp [JsonPointer.singleToken]
  simp [IngestionProfile.singleTokens, hsingle]

theorem mem_addTopLevelProperty {properties : List Text} {pointer : JsonPointer} :
    token ∈ addTopLevelProperty properties pointer ↔
      token ∈ properties ∨ pointer.tokens = [token] := by
  obtain ⟨_ | ⟨first, _ | ⟨second, rest⟩⟩⟩ := pointer
  · simp [addTopLevelProperty]
  · unfold addTopLevelProperty
    dsimp only
    split
    · rename_i hmem
      have hfirst : [first] = [token] → token ∈ properties := fun heq =>
        (List.cons.inj heq).1 ▸ hmem
      tauto
    · simp [eq_comm]
  · simp [addTopLevelProperty]

theorem mem_foldl_addTopLevelProperty {pointers : List JsonPointer} {properties : List Text} :
    token ∈ pointers.foldl addTopLevelProperty properties ↔
      token ∈ properties ∨ ∃ pointer ∈ pointers, pointer.tokens = [token] := by
  induction pointers generalizing properties with
  | nil => simp
  | cons pointer pointers ih =>
    rw [foldl_cons, ih, mem_addTopLevelProperty, exists_mem_cons_iff, or_assoc]

/-- The plan removes the members that its profile addresses with a single token. -/
theorem mem_removedTopLevelProperties [Chrono] {metadata : BatchMetadata} {source : Source}
    {plan : NormalizationPlan} (hplan : NormalizationPlan.resolve metadata source = .ok plan) :
    token ∈ plan.removedTopLevelProperties ↔ token ∈ plan.profile.singleTokens := by
  obtain ⟨_, _, _, _, -, -, -, -, rfl⟩ := NormalizationPlan.resolve_eq_ok hplan
  rw [mem_foldl_addTopLevelProperty, mem_addTopLevelProperty, mem_singleTokens]
  simp

theorem getD_remaining (profile : IngestionProfile) (object : List (Text × Value)) :
    (profile.remaining object).getD [] =
      object.filter fun entry => entry.1 ∉ profile.singleTokens := by
  unfold IngestionProfile.remaining
  dsimp only
  split
  · rename_i hnil
    rw [hnil, Option.getD_none]
  · rfl

theorem mem_getD_remaining {entry : Text × Value} :
    entry ∈ (profile.remaining object).getD [] ↔ entry ∈ object ∧
      profile.eventTime.jsonPointer.tokens ≠ [entry.1] ∧
      ∀ mapping ∈ profile.mappings, mapping.jsonPointer.tokens ≠ [entry.1] := by
  rw [getD_remaining, mem_filter, decide_eq_true_eq, mem_singleTokens, not_or]
  push Not
  rfl

/-- A remainder and the values at the single tokens determine the object. -/
theorem reconstruct_remaining (profile : IngestionProfile) (h : KeysIncrease object) :
    profile.reconstruct (profile.remaining object) (fun token => lookupEntry token object) =
      object := by
  have hcaptured {entry : Text × Value} :
      (entry ∈ profile.singleTokens.filterMap fun token =>
        (lookupEntry token object).map (token, ·)) ↔
      entry ∈ object ∧ entry.1 ∈ profile.singleTokens := by
    obtain ⟨name, value⟩ := entry
    rw [← lookupEntry_eq_some_iff h, mem_filterMap]
    constructor
    · rintro ⟨token, htoken, heq⟩
      obtain ⟨_, hlookup, heq⟩ := Option.map_eq_some_iff.mp heq
      cases heq
      exact ⟨hlookup, htoken⟩
    · rintro ⟨hlookup, htoken⟩
      exact ⟨name, htoken, by rw [hlookup]; rfl⟩
  rw [IngestionProfile.reconstruct, getD_remaining]
  refine (keysIncrease_objectOf ?_).eq_of_mem_iff h fun entry => ?_
  · -- the keys of each part are different, and only one part has the tokens
    rw [List.Nodup, pairwise_map, pairwise_append, pairwise_filterMap]
    refine ⟨?_, ?_, ?_⟩
    · refine (h.filter _).imp ?_
      intro entry other hlt heq
      exact List.lt_irrefl _ (heq ▸ hlt)
    · refine (nodup_dedup _).imp fun hne entry hentry other hother heq => hne ?_
      obtain ⟨_, -, rfl⟩ := Option.map_eq_some_iff.mp hentry
      obtain ⟨_, -, rfl⟩ := Option.map_eq_some_iff.mp hother
      exact heq
    · intro entry hentry other hother heq
      have hnot := of_decide_eq_true (mem_filter.mp hentry).2
      exact hnot (heq ▸ (hcaptured.mp hother).2)
  · rw [mem_objectOf, mem_append, hcaptured, mem_filter, decide_eq_true_eq,
      ← and_or_left]
    exact and_iff_left (Decidable.em _).symm

/-! ## Fields -/

/-- Two relations of lists, one behind the other. -/
theorem forall₂_trans {α β γ : Type} {R : α → β → Prop} {S : β → γ → Prop} {T : α → γ → Prop}
    (h : ∀ x y z, R x y → S y z → T x z) {xs : List α} {ys : List β} {zs : List γ}
    (hR : List.Forall₂ R xs ys) (hS : List.Forall₂ S ys zs) : List.Forall₂ T xs zs := by
  induction hR generalizing zs with
  | nil =>
    cases hS
    exact .nil
  | cons hxy _ ih =>
    cases hS with
    | cons hyz hrest => exact .cons (h _ _ _ hxy hyz) (ih hrest)

/-- The plan of a field. -/
theorem fieldPlan_eq_ok {field : Catalog.Field} {plan : FieldPlan}
    (h : fieldPlan profile field = .ok plan) :
    ∃ conversion, field.logicalType.conversion = some conversion ∧
      plan = ⟨field.id, field.nullability, conversion,
        (profile.mappings.find? fun mapping => mapping.targetFieldId = field.id).map
          (·.jsonPointer)⟩ := by
  obtain ⟨conversion, hconversion, h⟩ := bind_eq_ok.mp h
  obtain ⟨_, -, h⟩ := bind_eq_ok.mp h
  exact ⟨conversion, okOr_eq_ok hconversion, (Except.ok.inj h).symm⟩

section Rows

variable {plan : FieldPlan} {field : Catalog.Field} {root : Value}

/-- The pointer of a field reaches the value. -/
def MapsTo (profile : IngestionProfile) (root : Value) (field : Catalog.Field) (value : Value) : Prop :=
  ∃ mapping ∈ profile.mappings, mapping.targetFieldId = field.id ∧
    Resolves root mapping.jsonPointer.tokens value

/-- The targets of a profile are different, so a field has at most one mapping. -/
theorem find?_mappings_eq_some_iff {fieldId : FieldId} {mapping : FieldMapping} :
    (profile.mappings.find? fun mapping => mapping.targetFieldId = fieldId) = some mapping ↔
      mapping ∈ profile.mappings ∧ mapping.targetFieldId = fieldId := by
  constructor
  · intro h
    exact ⟨mem_of_find?_eq_some h, by simpa using find?_some h⟩
  · rintro ⟨hmem, htarget⟩
    obtain ⟨other, hother⟩ := Option.isSome_iff_exists.mp
      (find?_isSome (p := fun mapping => decide (mapping.targetFieldId = fieldId)).mpr
        ⟨mapping, hmem, by simpa using htarget⟩)
    have htarget : other.targetFieldId = mapping.targetFieldId := by
      simpa [htarget] using find?_some hother
    rw [hother, inj_on_of_nodup_map profile.targets_nodup
      (mem_of_find?_eq_some hother) hmem htarget]

/-- The pointer of a plan reaches what the pointer of its field does. -/
theorem mapsTo_iff
    (hroot : ∀ tokens value, resolvePointer root tokens = some value ↔ Resolves root tokens value)
    (hplan : fieldPlan profile field = .ok plan) {value : Value} :
    (plan.pointer.bind fun pointer => resolvePointer root pointer.tokens) = some value ↔
      MapsTo profile root field value := by
  obtain ⟨_, -, rfl⟩ := fieldPlan_eq_ok hplan
  rw [Option.bind_eq_some_iff]
  constructor
  · rintro ⟨_, hpointer, h⟩
    obtain ⟨mapping, hmapping, rfl⟩ := Option.map_eq_some_iff.mp hpointer
    obtain ⟨hmem, htarget⟩ := find?_mappings_eq_some_iff.mp hmapping
    exact ⟨mapping, hmem, htarget, (hroot _ _).mp h⟩
  · rintro ⟨mapping, hmem, htarget, h⟩
    exact ⟨_, Option.map_eq_some_iff.mpr ⟨mapping, find?_mappings_eq_some_iff.mpr
      ⟨hmem, htarget⟩, rfl⟩, (hroot _ _).mpr h⟩

variable [Chrono]

/-- The plan removes what its profile addresses. -/
theorem remaining_eq {metadata : BatchMetadata} {source : Source} {plan : NormalizationPlan}
    (hplan : NormalizationPlan.resolve metadata source = .ok plan) (object : List (Text × Value)) :
    plan.profile.remaining object =
      if removeProperties plan.removedTopLevelProperties object = [] then none
      else some (removeProperties plan.removedTopLevelProperties object) := by
  have hfilter : removeProperties plan.removedTopLevelProperties object =
      object.filter fun entry => entry.1 ∉ plan.profile.singleTokens :=
    filter_congr fun entry _ =>
      decide_eq_decide.mpr (not_congr (mem_removedTopLevelProperties hplan))
  rw [hfilter]
  rfl

variable [ChronoText] [FloatText]

/-- What becomes of a field : nothing is at its pointer, null is, or a value to convert. -/
inductive FieldOutcome (profile : IngestionProfile) (root : Value) (field : Catalog.Field) :
    Except DeadLetterCode NormalizedValue → Prop
  | absent : (∀ value, ¬ MapsTo profile root field value) → field.nullability = .nullable →
    FieldOutcome profile root field (.ok .null)
  | missing : (∀ value, ¬ MapsTo profile root field value) → field.nullability = .nonNull →
    FieldOutcome profile root field (.error .fieldMissing)
  | null : MapsTo profile root field .null → field.nullability = .nullable →
    FieldOutcome profile root field (.ok .null)
  | notNull : MapsTo profile root field .null → field.nullability = .nonNull →
    FieldOutcome profile root field (.error .fieldNull)
  | converted {value : Value} {conversion : Conversion} {normalized : NormalizedValue} :
    MapsTo profile root field value → value ≠ .null →
    field.logicalType.conversion = some conversion →
    convertValue value conversion profile.eventTime.format = some normalized →
    FieldOutcome profile root field (.ok normalized)
  | unconverted {value : Value} {conversion : Conversion} :
    MapsTo profile root field value → value ≠ .null →
    field.logicalType.conversion = some conversion →
    convertValue value conversion profile.eventTime.format = none →
    FieldOutcome profile root field (.error .conversionFailed)

/-- The plan of a field normalizes it. -/
theorem fieldOutcome_normalizeField
    (hroot : ∀ tokens value, resolvePointer root tokens = some value ↔ Resolves root tokens value)
    (hplan : fieldPlan profile field = .ok plan) :
    FieldOutcome profile root field
      ((normalizeField root profile.eventTime.format plan).map (·.value)) := by
  have hmaps (value : Value) : _ ↔ MapsTo profile root field value :=
    mapsTo_iff hroot hplan
  obtain ⟨conversion, hconversion, rfl⟩ := fieldPlan_eq_ok hplan
  unfold normalizeField
  dsimp only at hmaps ⊢
  split
  · rename_i hnone
    have habsent (value : Value) : ¬ MapsTo profile root field value := fun hvalue => by
      rw [hnone] at hmaps
      cases (hmaps value).mpr hvalue
    cases hnullability : field.nullability with
    | nullable => exact .absent habsent hnullability
    | nonNull => exact .missing habsent hnullability
  · rename_i hnull
    have hnull := (hmaps .null).mp hnull
    cases hnullability : field.nullability with
    | nullable => exact .null hnull hnullability
    | nonNull => exact .notNull hnull hnullability
  · rename_i value hne hvalue
    have hvalue := (hmaps value).mp hvalue
    cases hconverted : convertValue value conversion profile.eventTime.format with
    | none => exact .unconverted hvalue hne hconversion hconverted
    | some normalized => exact .converted hvalue hne hconversion hconverted

variable [Blake3] [SerdeJson]

/-- What a row keeps of its record. -/
theorem normalizeRecord_captures {metadata : BatchMetadata} {source : Source}
    {plan : NormalizationPlan} (hplan : NormalizationPlan.resolve metadata source = .ok plan)
    {record : Bytes} (hlength : record.length < 2 ^ 63) {object : List (Text × Value)}
    (hobject : JsonParser.parseObject record = some object) (location : RecordLocation) :
    ∃ schema, source.schema metadata.catalog.targetSchemaId = some schema ∧
      (∀ tokens value, resolvePointer (.object object) tokens = some value ↔
        Resolves (.object object) tokens value) ∧
      (∀ row, normalizeRecord plan record location = .ok row →
        (∃ value, Resolves (.object object) plan.profile.eventTime.jsonPointer.tokens value ∧
          parseDatetime value plan.profile.eventTime.format =
            some row.eventTime.unixMilliseconds) ∧
        List.Forall₂ (fun field normalized => normalized.fieldId = field.id ∧
            FieldOutcome plan.profile (.object object) field (.ok normalized.value))
          (schema.fields.filter fun field => field.role = .data) row.fields ∧
        row.remainder = plan.profile.remaining object ∧
        (∀ entry, entry ∈ row.remainder.getD [] ↔ entry ∈ object ∧
          plan.profile.eventTime.jsonPointer.tokens ≠ [entry.1] ∧
          ∀ mapping ∈ plan.profile.mappings, mapping.jsonPointer.tokens ≠ [entry.1]) ∧
        plan.profile.reconstruct row.remainder
          (fun token => resolvePointer (.object object) [token]) = object) ∧
      ∀ code, normalizeRecord plan record location = .error code →
        code = .eventTimeInvalid ∨ ∃ field ∈ schema.fields, field.role = .data ∧
          FieldOutcome plan.profile (.object object) field (.error code) := by
  obtain ⟨-, hkeys, hentries⟩ := JsonParser.admits_parseObject hobject
  have hroot (tokens : List Text) (value : Value) :
      resolvePointer (.object object) tokens = some value ↔
        Resolves (.object object) tokens value :=
    resolvePointer_eq_some_iff ⟨hkeys, hentries⟩ (narrow_parseObject hlength hobject)
  have hremaining := remaining_eq hplan object
  obtain ⟨_, revision, schema, fields, -, -, hschema, hfields, rfl⟩ :=
    NormalizationPlan.resolve_eq_ok hplan
  have hplans := forall₂_of_mapM_eq_ok hfields
  refine ⟨schema, hschema, hroot, ?_, ?_⟩
  · intro row hrow
    obtain ⟨other, eventTime, normalized, hother, heventTime, hnormalized, rfl⟩ :=
      normalizeRecord_eq_ok hrow
    obtain rfl := Option.some.inj (hobject.symm.trans hother)
    refine ⟨?_, ?_, hremaining.symm, fun entry => ?_, ?_⟩
    · obtain ⟨value, hvalue, hparsed⟩ := Option.bind_eq_some_iff.mp heventTime
      exact ⟨value, (hroot _ _).mp hvalue, hparsed⟩
    · refine forall₂_trans ?_ hplans (forall₂_of_mapM_eq_ok hnormalized)
      intro field plan stored hfield hstored
      have houtcome := fieldOutcome_normalizeField hroot hfield
      rw [hstored] at houtcome
      obtain ⟨_, -, rfl⟩ := fieldPlan_eq_ok hfield
      exact ⟨(normalizeField_eq_ok hstored).1, houtcome⟩
    · dsimp only
      rw [← hremaining]
      exact mem_getD_remaining
    · dsimp only
      rw [← hremaining]
      have hlookup : (fun token => resolvePointer (.object object) [token]) =
          fun token => lookupEntry token object := by
        funext token
        simp [resolvePointer]
      rw [hlookup]
      exact reconstruct_remaining revision.profile hkeys
  · intro code hcode
    unfold normalizeRecord at hcode
    rw [hobject, okOr_some, ok_bind] at hcode
    rcases bind_eq_error.mp hcode with hcode | ⟨eventTime, -, hcode⟩
    · exact Or.inl (okOr_eq_error.mp hcode).2.symm
    · rcases bind_eq_error.mp hcode with hcode | ⟨_, -, hcode⟩
      · obtain ⟨plan, hmem, herror⟩ := exists_of_mapM_eq_error hcode
        obtain ⟨field, hfield, hplan⟩ := exists_of_mem_forall₂ hplans hmem
        obtain ⟨hfield, hrole⟩ := mem_filter.mp hfield
        have houtcome := fieldOutcome_normalizeField hroot hplan
        rw [herror] at houtcome
        exact Or.inr ⟨field, hfield, of_decide_eq_true hrole, houtcome⟩
      · cases hcode

end Rows

/-! ## Concrete values -/

/-- The pointers `/a/0` and `/b`. -/
def nestedMappings : List FieldMapping :=
  [⟨UuidV7.sample 5, ⟨[[0x61], [0x30]]⟩⟩, ⟨UuidV7.sample 6, ⟨[[0x62]]⟩⟩]

theorem nodup_nestedMappings : (nestedMappings.map (·.targetFieldId)).Nodup := by decide

/-- An integer and a text. -/
def nestedFields : List Catalog.UserField :=
  [⟨UuidV7.sample 5, ⟨[0x61], by decide⟩, .int64, .nonNull, none, none, by decide, nofun⟩,
    ⟨UuidV7.sample 6, ⟨[0x62], by decide⟩, .utf8, .nullable, none, none, by decide, nofun⟩]

/-- A source with an integer at `/a/0` and a text at `/b`. -/
def Source.nested : Source where
  id := UuidV7.sample 1
  schemas := [⟨UuidV7.sample 4, UuidV7.sample 1, 1, .zero, .zero,
    Catalog.schemaFields nestedFields, nestedFields, rfl⟩]
  inputs := [⟨UuidV7.sample 2, [⟨UuidV7.sample 3, UuidV7.sample 4,
    ⟨1024, ⟨⟨[[0x74]]⟩, .unixMilliseconds⟩, nestedMappings, kibibyte_pos, kibibyte_lt,
      nodup_nestedMappings⟩⟩]⟩]

/-- `{"a":[5],"b":null,"d":true,"t":1}`. -/
def nestedFieldRecord : Bytes :=
  [0x7B, 0x22, 0x61, 0x22, 0x3A, 0x5B, 0x35, 0x5D, 0x2C, 0x22, 0x62, 0x22, 0x3A, 0x6E, 0x75, 0x6C,
    0x6C, 0x2C, 0x22, 0x64, 0x22, 0x3A, 0x74, 0x72, 0x75, 0x65, 0x2C, 0x22, 0x74, 0x22, 0x3A, 0x31,
    0x7D]

section Sample

attribute [local instance] Chrono.unbounded ChronoText.silent FloatText.silent Blake3.constant
  SerdeJson.plain

theorem parseObject_nestedFieldRecord : JsonParser.parseObject nestedFieldRecord =
    some [([0x61], .array [.number [0x35]]), ([0x62], .null), ([0x64], .bool true),
      ([0x74], .number [0x31])] := rfl

/-- The array stays in the remainder, as its pointer has two tokens. -/
theorem normalizeRecord_captures_nestedFieldRecord :
    ∃ plan row, NormalizationPlan.resolve (BatchMetadata.sample 9) Source.nested = .ok plan ∧
      normalizeRecord plan nestedFieldRecord ⟨1, 0⟩ = .ok row ∧
      row.fields = [⟨UuidV7.sample 5, .int64 5⟩, ⟨UuidV7.sample 6, .null⟩] ∧
      row.remainder = some [([0x61], .array [.number [0x35]]), ([0x64], .bool true)] ∧
      plan.profile.reconstruct row.remainder (fun token => resolvePointer
        (.object [([0x61], .array [.number [0x35]]), ([0x62], .null), ([0x64], .bool true),
          ([0x74], .number [0x31])]) [token]) =
        [([0x61], .array [.number [0x35]]), ([0x62], .null), ([0x64], .bool true),
          ([0x74], .number [0x31])] := by
  refine ⟨_, _, rfl, rfl, rfl, rfl, ?_⟩
  have hplan : NormalizationPlan.resolve (BatchMetadata.sample 9) Source.nested = .ok _ := rfl
  obtain ⟨_, -, -, hrow, -⟩ :=
    normalizeRecord_captures hplan (by decide) parseObject_nestedFieldRecord ⟨1, 0⟩
  exact (hrow _ rfl).2.2.2.2

end Sample

end Elucid
