import Mathlib.Algebra.Group.Nat.Defs
import SealedVault.Config.Read
import SealedVault.Proofs.Skipping

/-!
This module contains the reading of configuration texts. Main statement: `json_exact`, so every
configuration is read back from its own text, an object gives exactly the settings that stand in it,
whatever else it has, and a setting that comes twice is refused.
-/

namespace SealedVault.Config

open Json

section Texts

/-- A member of a configuration text, with the settings that it gives: one if its key spells the
name of a setting, else none. -/
inductive IsMember : List (Setting × UInt64) → String → Prop where
  | setting {setting : Setting} {value : UInt64} {before key after lead trail : String} :
    IsBlanks before → Spells key setting.name → IsBlanks after → IsBlanks lead → IsBlanks trail →
      IsMember [(setting, value)]
        (keyed before key after ++ lead ++ toString value.toNat ++ trail)
  | other {before key name after lead value trail : String} :
    IsBlanks before → Spells key name → (∀ setting : Setting, name ≠ setting.name) →
      IsBlanks after → IsBlanks lead → IsValue value → IsBlanks trail →
      IsMember [] (keyed before key after ++ lead ++ value ++ trail)

/-- Members with commas between them, and the settings that they give. -/
inductive IsMembers : List (Setting × UInt64) → String → Prop where
  | last {given : List (Setting × UInt64)} {member : String} :
    IsMember given member → IsMembers given member
  | cons {given more : List (Setting × UInt64)} {member members : String} :
    IsMember given member → IsMembers more members →
      IsMembers (given ++ more) (member ++ "," ++ members)

/-- An object, and the settings that it gives. -/
inductive IsObject : List (Setting × UInt64) → String → Prop where
  | empty {blanks : String} : IsBlanks blanks → IsObject [] (Frame.object.enclose blanks)
  | members {given : List (Setting × UInt64)} {members : String} :
    IsMembers given members → IsObject given (Frame.object.enclose members)

end Texts

section Drafts

/-- The draft with some settings put into it, one after the other. -/
def Draft.putAll (draft : Draft) (given : List (Setting × UInt64)) : Draft :=
  given.foldl (fun draft entry => draft.put entry.2 entry.1) draft

theorem Draft.putAll_append (draft : Draft) (given more : List (Setting × UInt64)) :
    draft.putAll (given ++ more) = (draft.putAll given).putAll more :=
  List.foldl_append

theorem lookup_eq_none {given : List (Setting × UInt64)} {setting : Setting}
    (h : setting ∉ given.map Prod.fst) : given.lookup setting = none := by
  rw [List.lookup_eq_none_iff]
  intro entry hentry
  rw [bne_iff_ne]
  intro heq
  apply h
  rw [heq]
  exact List.mem_map_of_mem hentry

theorem Draft.get?_putAll {given : List (Setting × UInt64)} (h : (given.map Prod.fst).Nodup)
    (draft : Draft) (setting : Setting) :
    (draft.putAll given).get? setting = (given.lookup setting).or (draft.get? setting) := by
  induction given generalizing draft with
  | nil => rfl
  | cons entry given ih =>
    obtain ⟨other, value⟩ := entry
    obtain ⟨hother, hnodup⟩ := List.nodup_cons.1 h
    show ((draft.put value other).putAll given).get? setting = _
    rw [ih hnodup, Draft.get?_put, List.lookup_cons]
    by_cases heq : setting = other
    · rw [if_pos heq, heq, lookup_eq_none hother, beq_self_eq_true]
      rfl
    · rw [if_neg heq, beq_false_of_ne heq]

theorem Draft.get_config (draft : Draft) (setting : Setting) :
    draft.config.get setting = (draft.get? setting).getD ((default : Config).get setting) := by
  cases setting <;> rfl

end Drafts

section Members

/-- What is read behind a member. -/
def readOn (draft : Draft) (bytes : Bytes) : Except ConfigError (Draft × Bytes) :=
  match skipBlanks bytes with
  | [] => .error (.notJson .truncated)
  | byte :: rest =>
    if byte = ascii ',' then readMembers draft rest
    else if byte = Frame.object.closing then .ok (draft, rest)
    else .error (.notJson .malformed)

theorem readMembers_eq (draft : Draft) (bytes : Bytes) :
    readMembers draft bytes = (do
      let (draft, behind) ← readMember draft bytes
      readOn draft behind) := by
  conv => lhs; unfold readMembers
  split
  · next hfault => rw [hfault]; rfl
  · next hok =>
    simp only [hok, bind, Except.bind, readOn]
    split
    · next hnil => rw [hnil]
    · next hcons => simp only [hcons]

theorem readOn_blanks {blanks : String} (h : IsBlanks blanks) (draft : Draft) (bytes : Bytes) :
    readOn draft (utf8 blanks ++ bytes) = readOn draft bytes := by
  rw [readOn, readOn, skipBlanks_append h]

theorem readOn_comma (draft : Draft) (bytes : Bytes) :
    readOn draft (ascii ',' :: bytes) = readMembers draft bytes := by
  rw [readOn, skipBlanks_cons rfl]
  exact if_pos rfl

theorem readOn_closing (draft : Draft) (bytes : Bytes) :
    readOn draft (Frame.object.closing :: bytes) = .ok (draft, bytes) := by
  rw [readOn, skipBlanks_cons rfl]
  exact (if_neg (by decide)).trans (if_pos rfl)

theorem readValue_append {lead : String} (hlead : IsBlanks lead) (setting : Setting)
    (value : UInt64) {rest : Bytes} (hrest : EndsNumeral rest) :
    readValue setting (utf8 lead ++ (utf8 (toString value.toNat) ++ rest)) = .ok (value, rest) := by
  have hle : value.toNat ≤ maxSignificand := Nat.le_of_lt_succ value.toNat_lt
  obtain ⟨byte, more, hbytes, ⟨hblank, _⟩, _⟩ := starts_number (isNumber_toString value.toNat)
  have hshape := scanShape_natural hle hrest
  rw [hbytes, List.cons_append] at hshape ⊢
  rw [readValue, skipBlanks_append hlead, skipBlanks_cons hblank, hshape]
  show Except.ok (UInt64.ofNat value.toNat, rest) = _
  rw [UInt64.ofNat_toNat]

theorem orFault_bind {α β : Type} {result : Except Fault α} {value : α} (h : result = .ok value)
    (next : α → Except ConfigError β) : (orFault result >>= next) = next value := by
  rw [h]
  rfl

/-- Reads a member behind its key. -/
def readNamed (draft : Draft) (name : String) (bytes : Bytes) :
    Except ConfigError (Draft × Bytes) := do
  match Setting.ofName? name with
  | none =>
    let bytes ← orFault (skipMark (ascii ':') bytes)
    let bytes ← orFault (skipValue [] bytes)
    return (draft, bytes)
  | some setting =>
    if (draft.get? setting).isSome then
      throw (.mismatch (.repeated setting))
    let bytes ← orFault (skipMark (ascii ':') bytes)
    let (value, bytes) ← readValue setting bytes
    return (draft.put value setting, bytes)

theorem readMember_key {before key name : String} (hbefore : IsBlanks before)
    (hkey : Spells key name) (draft : Draft) (bytes : Bytes) :
    readMember draft (utf8 before ++ ascii '"' :: (utf8 key ++ ascii '"' :: bytes)) =
      readNamed draft name bytes := by
  rw [readMember, orFault_bind (skipMark_append hbefore rfl _),
    orFault_bind (scanString_append hkey bytes)]
  rfl

theorem readNamed_repeated {draft : Draft} {setting : Setting}
    (h : (draft.get? setting).isSome = true) (bytes : Bytes) :
    readNamed draft setting.name bytes = .error (.mismatch (.repeated setting)) := by
  simp only [readNamed, Setting.ofName?_name, h]
  rfl

theorem readNamed_setting {draft : Draft} {setting : Setting} (h : draft.get? setting = none)
    {after lead : String} (hafter : IsBlanks after) (hlead : IsBlanks lead) (value : UInt64)
    {rest : Bytes} (hrest : EndsNumeral rest) :
    readNamed draft setting.name
        (utf8 after ++ ascii ':' :: (utf8 lead ++ (utf8 (toString value.toNat) ++ rest))) =
      .ok (draft.put value setting, rest) := by
  simp only [readNamed, Setting.ofName?_name, h]
  show (orFault _ >>= _) = _
  rw [orFault_bind (skipMark_append hafter rfl _), readValue_append hlead setting value hrest]
  rfl

theorem readNamed_other {name : String} (h : ∀ setting : Setting, name ≠ setting.name)
    {after lead value : String} (hafter : IsBlanks after) (hlead : IsBlanks lead)
    (hvalue : IsValue value) (draft : Draft) {rest : Bytes} (hrest : EndsNumeral rest) :
    readNamed draft name (utf8 after ++ ascii ':' :: (utf8 lead ++ (utf8 value ++ rest))) =
      .ok (draft, rest) := by
  have hnone : Setting.ofName? name = none := by
    cases hfound : Setting.ofName? name with
    | none => rfl
    | some setting => exact absurd (Setting.ofName?_eq_some_iff.1 hfound).symm (h setting)
  have hskip : skipValue [] (utf8 lead ++ (utf8 value ++ rest)) = .ok rest := by
    rw [skipValue_blanks hlead, skipValue_append hvalue [] hrest, skipRest_nil]
  simp only [readNamed, hnone]
  rw [orFault_bind (skipMark_append hafter rfl _), orFault_bind hskip]
  rfl

theorem readMember_append {given : List (Setting × UInt64)} {member : String}
    (h : IsMember given member) {draft : Draft}
    (hfresh : ∀ entry ∈ given, draft.get? entry.1 = none) {rest : Bytes}
    (hrest : EndsNumeral rest) :
    ∃ blanks, IsBlanks blanks ∧
      readMember draft (utf8 member ++ rest) = .ok (draft.putAll given, utf8 blanks ++ rest) := by
  cases h with
  | @setting setting value before key after lead trail hbefore hkey hafter hlead htrail =>
    use trail, htrail
    have hnone := hfresh (setting, value) List.mem_cons_self
    have hends := endsNumeral_append htrail hrest
    rw [utf8_item, utf8_keyed, readMember_key hbefore hkey,
      readNamed_setting hnone hafter hlead value hends]
    rfl
  | @other before key name after lead value trail hbefore hkey hother hafter hlead hvalue htrail =>
    use trail, htrail
    have hends := endsNumeral_append htrail hrest
    rw [utf8_item, utf8_keyed, readMember_key hbefore hkey,
      readNamed_other hother hafter hlead hvalue draft hends]
    rfl

theorem readMembers_append {given : List (Setting × UInt64)} {members : String}
    (h : IsMembers given members) {draft : Draft} (hnodup : (given.map Prod.fst).Nodup)
    (hfresh : ∀ entry ∈ given, draft.get? entry.1 = none) {rest : Bytes}
    (hrest : EndsNumeral rest) :
    readMembers draft (utf8 members ++ rest) = readOn (draft.putAll given) rest := by
  induction h generalizing draft with
  | last hmember =>
    obtain ⟨blanks, hblanks, hread⟩ := readMember_append hmember hfresh hrest
    rw [readMembers_eq, hread]
    exact readOn_blanks hblanks _ rest
  | @cons given more _ members hmember _ ih =>
    rw [List.map_append, List.nodup_append] at hnodup
    obtain ⟨hgiven, hmore, hdisjoint⟩ := hnodup
    have hleft := fun entry hentry => hfresh entry (List.mem_append_left more hentry)
    -- What the first member gives, none of the others gives again.
    have hright : ∀ entry ∈ more, (draft.putAll given).get? entry.1 = none := by
      intro entry hentry
      have habsent : entry.1 ∉ given.map Prod.fst := fun hmem =>
        hdisjoint _ hmem _ (List.mem_map_of_mem hentry) rfl
      rw [Draft.get?_putAll hgiven, lookup_eq_none habsent]
      exact hfresh entry (List.mem_append_right given hentry)
    obtain ⟨blanks, hblanks, hread⟩ :=
      readMember_append hmember hleft (endsNumeral_comma (utf8 members ++ rest))
    rw [utf8_comma, readMembers_eq, hread]
    show readOn _ _ = _
    rw [readOn_blanks hblanks, readOn_comma, ih hmore hright, Draft.putAll_append]

end Members

section Objects

theorem starts_member {given : List (Setting × UInt64)} {member : String}
    (h : IsMember given member) (bytes : Bytes) :
    ∃ more, skipBlanks (utf8 member ++ bytes) = ascii '"' :: more := by
  cases h with
  | setting hbefore _ _ _ _ =>
    rw [utf8_item]
    exact ⟨_, skipBlanks_keyed hbefore _ _ _⟩
  | other hbefore _ _ _ _ _ _ =>
    rw [utf8_item]
    exact ⟨_, skipBlanks_keyed hbefore _ _ _⟩

theorem starts_members {given : List (Setting × UInt64)} {members : String}
    (h : IsMembers given members) (bytes : Bytes) :
    ∃ more, skipBlanks (utf8 members ++ bytes) = ascii '"' :: more := by
  cases h with
  | last hmember => exact starts_member hmember bytes
  | cons hmember _ =>
    rw [utf8_comma]
    exact starts_member hmember _

theorem readSettings_brace {before : String} (hbefore : IsBlanks before) (bytes : Bytes) :
    readSettings (utf8 before ++ Frame.object.opening :: bytes) =
      match skipMark Frame.object.closing bytes with
      | .ok rest => .ok (Draft.empty, rest)
      | .error _ => readMembers .empty bytes := by
  have hshape : scanShape (skipBlanks (utf8 before ++ Frame.object.opening :: bytes)) =
      .ok (.object, bytes) := by
    rw [skipBlanks_append hbefore, skipBlanks_cons rfl]
    rfl
  rw [readSettings, orFault_bind hshape]
  rfl

theorem readSettings_members {given : List (Setting × UInt64)} {before members : String}
    (hbefore : IsBlanks before) (h : IsMembers given members) (hnodup : (given.map Prod.fst).Nodup)
    {rest : Bytes} (hrest : EndsNumeral rest) :
    readSettings (utf8 before ++ Frame.object.opening :: (utf8 members ++ rest)) =
      readOn (Draft.empty.putAll given) rest := by
  obtain ⟨more, hmore⟩ := starts_members h rest
  have hmark : skipMark Frame.object.closing (utf8 members ++ rest) = .error .malformed := by
    rw [skipMark, hmore]
    rfl
  have hfresh : ∀ entry ∈ given, Draft.empty.get? entry.1 = none := by
    intro entry _
    cases entry.1 <;> rfl
  rw [readSettings_brace hbefore, hmark]
  exact readMembers_append h hnodup hfresh hrest

theorem readSettings_object {given : List (Setting × UInt64)} {before object : String}
    (hbefore : IsBlanks before) (h : IsObject given object) (hnodup : (given.map Prod.fst).Nodup)
    (rest : Bytes) :
    readSettings (utf8 before ++ (utf8 object ++ rest)) = .ok (Draft.empty.putAll given, rest) := by
  cases h with
  | empty hblanks =>
    rw [utf8_enclose, readSettings_brace hbefore, skipMark_append hblanks rfl]
    rfl
  | members hmembers =>
    rw [utf8_enclose,
      readSettings_members hbefore hmembers hnodup (endsNumeral_closing .object rest)]
    exact readOn_closing _ rest

theorem ofJson_object {given : List (Setting × UInt64)} {object before after : String}
    (hbefore : IsBlanks before) (h : IsObject given object) (hnodup : (given.map Prod.fst).Nodup)
    (hafter : IsBlanks after) :
    ofJson (before ++ object ++ after) = .ok (Draft.empty.putAll given).config := by
  have hblanks : skipBlanks (utf8 after) = [] := by
    rw [← List.append_nil (utf8 after), skipBlanks_append hafter]
    rfl
  rw [ofJson, utf8_append, utf8_append, List.append_assoc, readSettings_object hbefore h hnodup]
  show (if (skipBlanks (utf8 after)).isEmpty then _ else _) = _
  rw [hblanks]
  rfl

theorem get_putAll {given : List (Setting × UInt64)} (hnodup : (given.map Prod.fst).Nodup)
    (setting : Setting) :
    (Draft.empty.putAll given).config.get setting =
      (given.lookup setting).getD ((default : Config).get setting) := by
  have hempty : Draft.empty.get? setting = none := by cases setting <;> rfl
  rw [Draft.get_config, Draft.get?_putAll hnodup, hempty, Option.or_none]

/-- Reading fails at the second key of a setting, whatever follows. -/
theorem ofJson_repeated {given : List (Setting × UInt64)} {before members blanks key : String}
    {setting : Setting} (hbefore : IsBlanks before) (h : IsMembers given members)
    (hnodup : (given.map Prod.fst).Nodup) (hmem : setting ∈ given.map Prod.fst)
    (hblanks : IsBlanks blanks) (hkey : Spells key setting.name) (rest : String) :
    ofJson (before ++ "\x7b" ++ members ++ "," ++ blanks ++ "\"" ++ key ++ "\"" ++ rest) =
      .error (.mismatch (.repeated setting)) := by
  have hpresent : ((Draft.empty.putAll given).get? setting).isSome = true := by
    obtain ⟨entry, hentry, rfl⟩ := List.mem_map.1 hmem
    rw [Draft.get?_putAll hnodup]
    cases hlookup : given.lookup entry.1 with
    | none => exact absurd (List.lookup_eq_none_iff.1 hlookup entry hentry) (by simp)
    | some value => rfl
  have hbytes : utf8 (before ++ "\x7b" ++ members ++ "," ++ blanks ++ "\"" ++ key ++ "\"" ++ rest) =
      utf8 before ++ Frame.object.opening :: (utf8 members ++ ascii ',' ::
        (utf8 blanks ++ ascii '"' :: (utf8 key ++ ascii '"' :: utf8 rest))) := by
    simp only [utf8_append, List.append_assoc]
    rfl
  rw [ofJson, hbytes, readSettings_members hbefore h hnodup (endsNumeral_comma _), readOn_comma,
    readMembers_eq, readMember_key hblanks hkey, readNamed_repeated hpresent]
  rfl

end Objects

section Writing

theorem spells_self {text : String} (h : text.toList.all (fun c => IsPlain c) = true) :
    Spells text text := by
  have hlist : ∀ letters : List Char, letters.all (fun c => IsPlain c) = true →
      Spells (String.ofList letters) (String.ofList letters) := by
    intro letters hletters
    induction letters with
    | nil => exact .nil
    | cons c letters ih =>
      rw [List.all_cons, Bool.and_eq_true, decide_eq_true_eq] at hletters
      rw [String.ofList_cons]
      exact .plain hletters.1 (ih hletters.2)
  rw [← String.ofList_toList (s := text)]
  exact hlist _ h

theorem isMember_member (config : Config) (setting : Setting) :
    IsMember [(setting, config.get setting)] (config.member setting) := by
  have hnone : IsBlanks "" := by decide
  have hname : Spells setting.name setting.name := spells_self (by cases setting <;> rfl)
  have htext : config.member setting =
      keyed "" setting.name "" ++ "" ++ toString (config.get setting).toNat ++ "" := by
    have hmark : "\":" = "\"" ++ ":" := rfl
    simp only [member, keyed, hmark, String.append_assoc, String.empty_append, String.append_empty]
  rw [htext]
  exact .setting hnone hname hnone hnone hnone

/-- The settings of a configuration, in the order of its text. -/
def entries (config : Config) : List (Setting × UInt64) :=
  [(.operationTimeout, config.operationTimeoutMs), (.maxScriptLines, config.maxScriptLines)]

theorem isObject_toJson (config : Config) : IsObject config.entries config.toJson := by
  have hmembers : IsMembers config.entries
      (config.member .operationTimeout ++ "," ++ config.member .maxScriptLines) :=
    .cons (isMember_member config .operationTimeout)
      (.last (isMember_member config .maxScriptLines))
  have htext : config.toJson = Frame.object.enclose
      (config.member .operationTimeout ++ "," ++ config.member .maxScriptLines) := by
    simp only [toJson, Frame.enclose, String.append_assoc]
  rw [htext]
  exact .members hmembers

theorem ofJson_toJson (config : Config) : ofJson config.toJson = .ok config := by
  have hnone : IsBlanks "" := by decide
  have hnodup : (config.entries.map Prod.fst).Nodup := by
    show [Setting.operationTimeout, .maxScriptLines].Nodup
    decide
  have hread := ofJson_object hnone (isObject_toJson config) hnodup hnone
  rw [String.empty_append, String.append_empty] at hread
  exact hread

theorem toNat_withOperationTimeout (config : Config) (timeout : Duration) :
    (config.withOperationTimeout timeout).operationTimeoutMs.toNat =
      min (timeout.nanoseconds / 1000000) (2 ^ 64 - 1) := by
  have hlt : min timeout.milliseconds (UInt64.size - 1) < 2 ^ 64 := by
    have : UInt64.size = 2 ^ 64 := rfl
    omega
  exact UInt64.toNat_ofNat_of_lt' hlt

end Writing

/-- Every configuration survives its JSON text, and a time limit is kept in whole milliseconds, as
many as fit. An object gives exactly the settings in it and leaves the others at their defaults,
whatever stands between them. The second key of a setting is refused, whatever follows it. -/
theorem json_exact :
    (∀ config : Config, ofJson config.toJson = .ok config) ∧
    (∀ (config : Config) (timeout : Duration),
      (config.withOperationTimeout timeout).operationTimeoutMs.toNat =
          min (timeout.nanoseconds / 1000000) (2 ^ 64 - 1) ∧
        (config.withOperationTimeout timeout).maxScriptLines = config.maxScriptLines) ∧
    (∀ (given : List (Setting × UInt64)) (before object after : String),
      IsBlanks before → IsObject given object → IsBlanks after → (given.map Prod.fst).Nodup →
      ∃ config, ofJson (before ++ object ++ after) = .ok config ∧
        ∀ setting, config.get setting =
          (given.lookup setting).getD ((default : Config).get setting)) ∧
    (∀ (given : List (Setting × UInt64)) (before members blanks key rest : String)
        (setting : Setting),
      IsBlanks before → IsMembers given members → (given.map Prod.fst).Nodup →
      setting ∈ given.map Prod.fst → IsBlanks blanks → Spells key setting.name →
      ofJson (before ++ "\x7b" ++ members ++ "," ++ blanks ++ "\"" ++ key ++ "\"" ++ rest) =
        .error (.mismatch (.repeated setting))) := by
  refine ⟨ofJson_toJson, ?_, ?_, ?_⟩
  · exact fun config timeout => ⟨toNat_withOperationTimeout config timeout, rfl⟩
  · intro given before object after hbefore hobject hafter hnodup
    exact ⟨_, ofJson_object hbefore hobject hnodup hafter, get_putAll hnodup⟩
  · intro given before members blanks key rest setting hbefore hmembers hnodup hmem hblanks hkey
    exact ofJson_repeated hbefore hmembers hnodup hmem hblanks hkey rest

/-- A list with an object in it is skipped, an escaped key is read, and a second key is refused. -/
theorem json_exact_nested :
    (∃ config, ofJson (" \x7b\"plan\": [null, \x7b\"\":-2.5e+1\x7d]," ++
        " \"max\\u005Fscript_lines\" :7\x7d\n") = .ok config ∧
      config.get .maxScriptLines = 7 ∧ config.get .operationTimeout = 5000) ∧
    ofJson "\x7b\"max_script_lines\":7,\"max_script_lines\"\x7d" =
      .error (.mismatch (.repeated .maxScriptLines)) := by
  have hnone : IsBlanks "" := by decide
  have hspace : IsBlanks " " := by decide
  have hline : IsBlanks "\n" := by decide
  have hnumber : IsNumber "-2.5e+1" :=
    ⟨"-", by decide, "2", ".5", "e+1", .inr ⟨by decide, by decide⟩, .inr ⟨"5", by decide, rfl⟩,
      .inr ⟨"e", by decide, "+", by decide, "1", by decide, rfl⟩, rfl⟩
  have hnull : IsItem .list "null" := .intro .element hnone (.word List.mem_cons_self) hnone
  have hobject : IsValue "\x7b\"\":-2.5e+1\x7d" :=
    .container (.last (.intro (.key hnone .nil hnone) hnone (.number hnumber) hnone))
  have hlist : IsValue "[null, \x7b\"\":-2.5e+1\x7d]" :=
    .container (.cons hnull (.last (.intro .element hspace hobject hnone)))
  have hplan : IsMember [] "\"plan\": [null, \x7b\"\":-2.5e+1\x7d]" := by
    have hname : Spells "plan" "plan" := spells_self rfl
    have hother : ∀ setting : Setting, "plan" ≠ setting.name := by
      intro setting
      cases setting <;> decide
    exact .other hnone hname hother hnone hspace hlist hnone
  have hlines : Spells "max_script_lines" Setting.maxScriptLines.name := spells_self rfl
  have hescaped : Spells "max\\u005Fscript_lines" Setting.maxScriptLines.name := by
    have hzero : IsHexDigit '0' 0 := ⟨by decide, .inl rfl⟩
    have hfive : IsHexDigit '5' 5 := ⟨by decide, .inl rfl⟩
    have hfifteen : IsHexDigit 'F' 15 := ⟨by decide, .inr rfl⟩
    have hunit : IsUnit "005F" '_'.toNat := .digits hzero hzero hfive hfifteen
    have htail : Spells "script_lines" "script_lines" := spells_self rfl
    exact @Spells.plain 'm' _ _ (by decide) (@Spells.plain 'a' _ _ (by decide)
      (@Spells.plain 'x' _ _ (by decide) (.unit hunit htail)))
  have hseven : IsMember [(.maxScriptLines, 7)] " \"max\\u005Fscript_lines\" :7" :=
    .setting hspace hescaped hspace hnone hnone
  have hfirst : IsMember [(.maxScriptLines, 7)] "\"max_script_lines\":7" :=
    .setting hnone hlines hnone hnone hnone
  have hobject := IsObject.members (.cons hplan (.last hseven))
  obtain ⟨-, -, hgiven, hrepeated⟩ := json_exact
  constructor
  · have htext : " \x7b\"plan\": [null, \x7b\"\":-2.5e+1\x7d]," ++
        " \"max\\u005Fscript_lines\" :7\x7d\n" = " " ++ Frame.object.enclose
          ("\"plan\": [null, \x7b\"\":-2.5e+1\x7d]" ++ "," ++
            " \"max\\u005Fscript_lines\" :7") ++ "\n" := by decide +kernel
    obtain ⟨config, hread, hget⟩ := hgiven _ " " _ "\n" hspace hobject hline (by decide)
    rw [htext]
    exact ⟨config, hread, hget .maxScriptLines, hget .operationTimeout⟩
  · have htext : "\x7b\"max_script_lines\":7,\"max_script_lines\"\x7d" =
        "" ++ "\x7b" ++ "\"max_script_lines\":7" ++ "," ++ "" ++ "\"" ++ "max_script_lines" ++
          "\"" ++ "\x7d" := by decide +kernel
    rw [htext]
    exact hrepeated _ _ _ _ _ _ _ hnone (.last hfirst) (by decide) List.mem_cons_self hnone hlines

end SealedVault.Config
