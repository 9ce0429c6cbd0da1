import SheetFormula.Format.StyleJson
import SheetFormula.Proofs.Json.Skipping
import Mathlib.Data.List.Nodup
import Mathlib.Data.List.Perm.Basic

/-!
# Styles from objects

An object says something about some of the settings of a style, each time in a member of its own.
The style that is read from it has the settings that are given, and the standard ones where none is
(`ofJson_object`). Neither the order of the members nor those that are no settings matter. A style
that is written as an object is read back (`ofJson_toJson`).

## Main definitions

* `Style.Entry` — what a member of an object says
* `Style.IsMembers`, `Style.IsObject` — the texts of members and objects, with what they say
* `Style.overlaid` — the standard style with the settings of entries
-/

namespace SheetFormula.Style

open Json (Blanks Ends Finds Fault Scanned Spells next?)

/-! ## Entries -/

/-- What a member of an object says. -/
inductive Entry where
  | flag (flag : Flag) (value : Bool)
  | size (size : Size) (value : Nat)
  /-- A member with a key that is no setting. -/
  | other (key : Text)

namespace Entry

/-- The setting that an entry gives. -/
def field? : Entry → Option Field
  | flag f _ => some (.flag f)
  | size s _ => some (.size s)
  | other _ => none

/-- Whether an entry gives a setting. -/
def isSetting (e : Entry) : Bool :=
  e.field?.isSome

/-- What an entry gives for a flag. -/
def flag? (f : Flag) : Entry → Option Bool
  | flag g value => if g = f then some value else none
  | _ => none

/-- What an entry gives for a size. -/
def size? (s : Size) : Entry → Option Nat
  | size r value => if r = s then some value else none
  | _ => none

/-- The key of the member, which is no key of a setting unless the entry gives one. -/
inductive HasKey : Entry → Text → Prop where
  | flag {f : Flag} {value : Bool} : HasKey (flag f value) (Field.flag f).key
  | size {s : Size} {value : Nat} : HasKey (size s value) (Field.size s).key
  | other {key : Text} (unknown : ∀ field : Field, field.key ≠ key) : HasKey (other key) key

/-- The value of the member: a word, a number of one machine word, or any value. -/
inductive HasValue : Entry → Text → Prop where
  | yes {f : Flag} : HasValue (flag f true) ['t', 'r', 'u', 'e']
  | no {f : Flag} : HasValue (flag f false) ['f', 'a', 'l', 's', 'e']
  | number {s : Size} {n : Nat} (word : n < widthLimit) :
      HasValue (size s n) (Nat.toDigits 10 n)
  | any {key v : Text} (value : Json.IsValue v) : HasValue (other key) v

end Entry

/-- Members, one or more, with commas between them, and what they say. -/
inductive IsMembers : List Entry → Text → Prop where
  | last {e : Entry} {a k key b c v d : Text} (before : Blanks a) (spells : Spells k key)
      (hasKey : e.HasKey key) (front : Blanks b) (middle : Blanks c) (value : e.HasValue v)
      (behind : Blanks d) :
      IsMembers [e] (a ++ '"' :: (k ++ '"' :: (b ++ ':' :: (c ++ (v ++ d)))))
  | more {e : Entry} {es : List Entry} {a k key b c v d t : Text} (before : Blanks a)
      (spells : Spells k key) (hasKey : e.HasKey key) (front : Blanks b) (middle : Blanks c)
      (value : e.HasValue v) (behind : Blanks d) (others : IsMembers es t) :
      IsMembers (e :: es) (a ++ '"' :: (k ++ '"' :: (b ++ ':' :: (c ++ (v ++ (d ++ ',' :: t))))))

/-- An object between blanks, and what its members say. -/
inductive IsObject : List Entry → Text → Prop where
  | empty {a b c : Text} (before : Blanks a) (inside : Blanks b) (behind : Blanks c) :
      IsObject [] (a ++ '\x7b' :: (b ++ '\x7d' :: c))
  | members {es : List Entry} {a t c : Text} (before : Blanks a) (members : IsMembers es t)
      (behind : Blanks c) : IsObject es (a ++ '\x7b' :: (t ++ '\x7d' :: c))

/-- The standard style with the settings of entries. -/
def overlaid (es : List Entry) : Style where
  useNestingIndicators :=
    (es.findSome? (Entry.flag? .nestingIndicators)).getD standard.useNestingIndicators
  useOperatorSpacing :=
    (es.findSome? (Entry.flag? .operatorSpacing)).getD standard.useOperatorSpacing
  indentSize := (es.findSome? (Entry.size? .indent)).getD standard.indentSize
  maxInlineLength := (es.findSome? (Entry.size? .inlineLength)).getD standard.maxInlineLength
  maxInlineParams := (es.findSome? (Entry.size? .inlineParams)).getD standard.maxInlineParams

/-! ## Settings one after the other -/

/-- The style with the setting of an entry. -/
def overlay (style : Style) : Entry → Style
  | .flag f value => style.setFlag f value
  | .size s value => style.setSize s value
  | .other _ => style

variable {style : Style} {es fs : List Entry} {e : Entry}

/-- Of two entries, only one gives a setting. -/
theorem pairwise_of_nodup {α : Type} {pick : Entry → Option α} {field : Field}
    (gives : ∀ e, pick e ≠ none → e.field? = some field)
    (once : (es.filterMap Entry.field?).Nodup) :
    es.Pairwise fun e f => pick e = none ∨ pick f = none := by
  refine (List.pairwise_filterMap.1 once).imp fun {e f} apart => ?_
  by_contra both
  rw [not_or] at both
  exact apart field (gives e both.1) field (gives f both.2) rfl

/-- If entries are laid over a style one after the other, it has the one value that they give. -/
theorem foldl_overlay {α : Type} (value : Style → α) {pick : Entry → Option α}
    (step : ∀ style e, value (overlay style e) = (pick e).getD (value style))
    (once : es.Pairwise fun e f => pick e = none ∨ pick f = none) :
    value (es.foldl overlay style) = (es.findSome? pick).getD (value style) := by
  induction es generalizing style with
  | nil => rfl
  | cons e es ih =>
    obtain ⟨apart, once⟩ := List.pairwise_cons.1 once
    rw [List.foldl_cons, ih once, List.findSome?_cons, step]
    cases given : pick e with
    | none => rfl
    | some a =>
      -- no later entry gives another value
      have others : es.findSome? pick = none := by
        refine List.findSome?_eq_none_iff.2 fun f met => (apart f met).resolve_left ?_
        rw [given]
        exact Option.some_ne_none a
      rw [others]
      rfl

theorem eq_of_settings {other : Style} (flags : ∀ f, style.flag f = other.flag f)
    (sizes : ∀ s, style.size s = other.size s) : style = other := by
  cases style
  cases other
  rw [mk.injEq]
  exact ⟨flags .nestingIndicators, flags .operatorSpacing, sizes .indent, sizes .inlineLength,
    sizes .inlineParams⟩

theorem flag_overlaid (es : List Entry) (f : Flag) :
    (overlaid es).flag f = (es.findSome? (Entry.flag? f)).getD (standard.flag f) := by
  cases f <;> rfl

theorem size_overlaid (es : List Entry) (s : Size) :
    (overlaid es).size s = (es.findSome? (Entry.size? s)).getD (standard.size s) := by
  cases s <;> rfl

theorem flag_overlay (f : Flag) (style : Style) (e : Entry) :
    (overlay style e).flag f = (e.flag? f).getD (style.flag f) := by
  cases e with
  | flag g value => cases f <;> cases g <;> rfl
  | size s value => cases f <;> cases s <;> rfl
  | other => rfl

theorem size_overlay (s : Size) (style : Style) (e : Entry) :
    (overlay style e).size s = (e.size? s).getD (style.size s) := by
  cases e with
  | flag g value => cases s <;> cases g <;> rfl
  | size r value => cases s <;> cases r <;> rfl
  | other => rfl

theorem Entry.field?_of_flag? {f : Flag} (given : e.flag? f ≠ none) :
    e.field? = some (.flag f) := by
  cases e with
  | flag g value =>
    rw [flag?] at given
    split at given
    · next same => rw [field?, same]
    · exact absurd rfl given
  | size | other => exact absurd rfl given

theorem Entry.field?_of_size? {s : Size} (given : e.size? s ≠ none) :
    e.field? = some (.size s) := by
  cases e with
  | size r value =>
    rw [size?] at given
    split at given
    · next same => rw [field?, same]
    · exact absurd rfl given
  | flag | other => exact absurd rfl given

/-- With every setting given once, it makes no difference in which order that is done. -/
theorem foldl_overlay_eq (once : (es.filterMap Entry.field?).Nodup) :
    es.foldl overlay standard = overlaid es := by
  refine eq_of_settings (fun f => ?_) fun s => ?_
  · rw [flag_overlaid]
    have single := pairwise_of_nodup (fun _ => Entry.field?_of_flag? (f := f)) once
    exact foldl_overlay (·.flag f) (flag_overlay f) single
  · rw [size_overlaid]
    have single := pairwise_of_nodup (fun _ => Entry.field?_of_size? (s := s)) once
    exact foldl_overlay (·.size s) (size_overlay s) single

/-! ## The order of entries -/

theorem filterMap_of_perm {α : Type} {pick : Entry → Option α}
    (settings : ∀ e, pick e ≠ none → e.isSetting = true)
    (same : (fs.filter Entry.isSetting).Perm (es.filter Entry.isSetting)) :
    (fs.filterMap pick).Perm (es.filterMap pick) := by
  have kept : ∀ gs : List Entry, (gs.filter Entry.isSetting).filterMap pick =
      gs.filterMap pick := by
    intro gs
    rw [List.filterMap_filter]
    refine List.filterMap_congr fun e _ => ?_
    split
    · rfl
    · next noSetting => exact (not_not.1 (mt (settings e) noSetting)).symm
  rw [← kept fs, ← kept es]
  exact same.filterMap pick

/-- What the settings among the entries give, in whatever order. -/
theorem findSome?_of_perm {α : Type} {pick : Entry → Option α} {field : Field}
    (gives : ∀ e, pick e ≠ none → e.field? = some field)
    (once : (es.filterMap Entry.field?).Nodup)
    (same : (fs.filter Entry.isSetting).Perm (es.filter Entry.isSetting)) :
    fs.findSome? pick = es.findSome? pick := by
  have settings : ∀ e, pick e ≠ none → e.isSetting = true := fun e given => by
    rw [Entry.isSetting, gives e given]
    rfl
  have values := filterMap_of_perm settings same
  have single : (es.filterMap pick).Pairwise fun _ _ => False := by
    refine List.pairwise_filterMap.2 ((pairwise_of_nodup gives once).imp ?_)
    rintro e f apart a given b other
    simp [given, other] at apart
  rw [← List.head?_filterMap, ← List.head?_filterMap]
  -- lists of at most one value have only one order
  generalize es.filterMap pick = as at values single
  match as with
  | [] => rw [List.perm_nil.1 values]
  | [a] => rw [List.perm_singleton.1 values]
  | a :: b :: as => exact absurd List.mem_cons_self (List.rel_of_pairwise_cons single)

theorem overlaid_of_perm (once : (es.filterMap Entry.field?).Nodup)
    (same : (fs.filter Entry.isSetting).Perm (es.filter Entry.isSetting)) :
    overlaid fs = overlaid es := by
  refine eq_of_settings (fun f => ?_) fun s => ?_
  · rw [flag_overlaid, flag_overlaid,
      findSome?_of_perm (fun _ => Entry.field?_of_flag?) once same]
  · rw [size_overlaid, size_overlaid,
      findSome?_of_perm (fun _ => Entry.field?_of_size?) once same]

theorem nodup_of_perm (once : (es.filterMap Entry.field?).Nodup)
    (same : (fs.filter Entry.isSetting).Perm (es.filter Entry.isSetting)) :
    (fs.filterMap Entry.field?).Nodup :=
  (filterMap_of_perm (fun _ => Option.isSome_iff_ne_none.2) same).nodup_iff.2 once

/-! ## Reading members -/

variable {given : Given} {field : Field} {a b c d k key t u v rest : Text}

/-- What is given together with an entry. -/
def Given.add (given : Given) (e : Entry) : Given :=
  ⟨e.field?.toList ++ given.fields, overlay given.style e⟩

theorem style_foldl_add (es : List Entry) :
    (es.foldl Given.add given).style = es.foldl overlay given.style :=
  (List.foldl_hom Given.style fun _ _ => rfl).symm

theorem Field.ofKey?_key (field : Field) : ofKey? field.key = some field := by
  cases field with
  | flag f => cases f <;> rfl
  | size s => cases s <;> rfl

theorem spells_key (field : Field) : Spells field.key field.key := by
  have plain : Field.all.all (fun field => field.key.all fun c => Json.IsPlain c) = true := by
    decide
  have known : field ∈ Field.all := List.mem_of_find?_eq_some (Field.ofKey?_key field)
  exact Json.spells_self (List.all_eq_true.1 plain field known)

theorem Entry.HasKey.ofKey? {e : Entry} (hasKey : e.HasKey key) :
    Field.ofKey? key = e.field? := by
  cases hasKey with
  | flag => exact Field.ofKey?_key _
  | size => exact Field.ofKey?_key _
  | other unknown =>
    refine List.find?_eq_none.2 fun field _ => ?_
    rw [beq_iff_eq]
    exact unknown field

theorem natural?_toDigits {n : Nat} (word : n < widthLimit) :
    (⟨Nat.toDigits 10 n, none, none⟩ : Json.Numeral).natural? = some n := by
  have le : n ≤ Json.maxNatural := Nat.le_of_lt_succ word
  simp only [Json.Numeral.natural?, Json.naturalOf_toDigits, le, true_and, if_true]

/-- The value of a setting begins with no blank, and is read wherever it may end. -/
theorem Entry.HasValue.finds_readField (style : Style) (value : e.HasValue v)
    (setting : e.field? = some field) (ends : Ends rest) :
    ∃ c u, v = c :: u ∧ Json.isBlank c = false ∧
      Finds (readField style field c (u ++ rest)) (overlay style e) rest := by
  cases value with
  | yes =>
    cases setting
    refine ⟨'t', _, rfl, by decide, ?_⟩
    exact ((Json.finds_skipWord ['r', 'u', 'e'] 't' rest).map fun _ => true).map (style.setFlag _)
  | no =>
    cases setting
    refine ⟨'f', _, rfl, by decide, ?_⟩
    exact ((Json.finds_skipWord ['a', 'l', 's', 'e'] 'f' rest).map fun _ => false).map
      (style.setFlag _)
  | @number s n word =>
    cases setting
    obtain ⟨c, u, written, digit⟩ := (Json.isNumeral_toDigits n).exists_digit
    have visible : Json.isBlank c = false := by
      refine Bool.eq_false_iff.2 fun blank => ?_
      simp only [Json.isBlank, Bool.or_eq_true, beq_iff_eq] at blank
      rcases blank with ((rfl | rfl) | rfl) | rfl <;> cases digit
    refine ⟨c, u, written, visible, ?_⟩
    have natural := natural?_toDigits word
    have scans := Json.finds_scanNumeral .truncated (Json.isNumeral_toDigits n) ends
    rw [written] at natural scans
    obtain ⟨shorter, scanned⟩ := scans
    have read : Finds (readSize c (u ++ rest)) n rest := by
      refine ⟨shorter, ?_⟩
      change Json.scanNumeral .truncated (c :: (u ++ rest)) = _ at scanned
      simp only [readSize, digit, if_true, scanned, natural]
      rfl
    exact read.map (style.setSize s)
  | any => cases setting

theorem finds_readMember (spells : Spells k key) (hasKey : e.HasKey key) (front : Blanks b)
    (middle : Blanks c) (value : e.HasValue v) (ends : Ends u)
    (fresh : ∀ field ∈ e.field?, field ∉ given.fields) :
    Finds (readMember given (k ++ '"' :: (b ++ ':' :: (c ++ (v ++ u))))) (given.add e) u := by
  generalize tail : c ++ (v ++ u) = s
  obtain ⟨longest, quoted⟩ := Json.finds_readQuoted spells (b ++ ':' :: s)
  obtain ⟨below, colon⟩ := Json.finds_expectChar (t := s) front (c := ':') (by decide)
  have known := hasKey.ofKey?
  cases setting : e.field? with
  | none =>
    rw [setting] at known
    cases e with
    | other =>
      cases value with
      | any value =>
        obtain ⟨shorter, skipped⟩ : Finds (Json.skipValue s) () u :=
          tail ▸ value.skips.finds_skipValue middle ends
        refine ⟨Nat.lt_trans shorter (Nat.lt_trans below longest), ?_⟩
        rw [readMember, quoted]
        simp only [bind, Except.bind, known, colon, skipped]
        rfl
    | flag | size => cases setting
  | some field =>
    rw [setting] at known fresh
    obtain ⟨d, w, rfl, visible, shorter, read⟩ :=
      value.finds_readField given.style setting ends
    obtain ⟨within, next⟩ : ∃ shorter, next? s = some ⟨d, w ++ u, shorter⟩ :=
      tail ▸ Json.next?_blanks middle visible
    refine ⟨Nat.lt_trans (Nat.lt_of_lt_of_le shorter within) (Nat.lt_trans below longest), ?_⟩
    rw [readMember, quoted, Given.add, setting]
    simp only [bind, Except.bind, known, if_neg (fresh field rfl), colon, next, read]
    rfl

/-- What stands in an object behind its beginning or a comma: a member, and the others up to the
end. -/
inductive LeavesMembers (given all : Given) (rest : Text) : Text → Prop where
  | member {one : Given} {a m u : Text} (before : Blanks a)
      (member : Finds (readMember given m) one u)
      (others : Finds (readMembers false one u) all rest) :
      LeavesMembers given all rest (a ++ '"' :: m)

theorem finds_readMembers_end (first : Bool) (given : Given) (blanks : Blanks b)
    (rest : Text) :
    Finds (readMembers first given (b ++ '\x7d' :: rest)) given rest := by
  obtain ⟨shorter, next⟩ := Json.next?_blanks (t := rest) blanks (c := '\x7d') (by decide)
  refine ⟨shorter, ?_⟩
  rw [readMembers, next]
  exact if_pos rfl

theorem LeavesMembers.first {all : Given} (leaves : LeavesMembers given all rest t) :
    Finds (readMembers true given t) all rest := by
  obtain @⟨one, a, m, u, before, ⟨shorter, member⟩, shortest, others⟩ := leaves
  obtain ⟨below, next⟩ := Json.next?_blanks (t := m) before (c := '"') (by decide)
  refine ⟨Nat.lt_trans shortest (Nat.lt_trans shorter below), ?_⟩
  rw [readMembers, next]
  simp only [Char.reduceEq, if_false, if_true, member, others]
  rfl

theorem LeavesMembers.behind {all : Given} (leaves : LeavesMembers given all rest t)
    (blanks : Blanks b) : Finds (readMembers false given (b ++ ',' :: t)) all rest := by
  obtain @⟨one, a, m, u, before, ⟨shorter, member⟩, shortest, others⟩ := leaves
  obtain ⟨below, next⟩ := Json.next?_blanks (t := a ++ '"' :: m) blanks (c := ',') (by decide)
  obtain ⟨within, quote⟩ := Json.finds_expectChar (t := m) before (c := '"') (by decide)
  refine ⟨Nat.lt_trans shortest (Nat.lt_trans shorter (Nat.lt_trans within below)), ?_⟩
  rw [readMembers, next]
  simp only [Char.reduceEq, if_false, Bool.false_eq_true, if_true, quote, member, others]
  rfl

/-- No setting of the entries is given yet, and none is given twice. -/
structure Fresh (given : Given) (es : List Entry) : Prop where
  once : (es.filterMap Entry.field?).Nodup
  unread : ∀ field ∈ es.filterMap Entry.field?, field ∉ given.fields

theorem Fresh.head (fresh : Fresh given (e :: es)) :
    ∀ field ∈ e.field?, field ∉ given.fields := fun field setting =>
  fresh.unread field (List.mem_filterMap.2 ⟨e, List.mem_cons_self, setting⟩)

theorem Fresh.tail (fresh : Fresh given (e :: es)) : Fresh (given.add e) es := by
  obtain ⟨once, unread⟩ := fresh
  cases setting : e.field? with
  | none =>
    rw [List.filterMap_cons_none setting] at once unread
    refine ⟨once, fun field met => ?_⟩
    rw [Given.add, setting]
    exact unread field met
  | some field =>
    rw [List.filterMap_cons_some setting] at once unread
    obtain ⟨apart, once⟩ := List.nodup_cons.1 once
    refine ⟨once, fun other met => ?_⟩
    rw [Given.add, setting]
    refine fun given => (List.mem_cons.1 given).elim ?_ (unread other (List.mem_cons_of_mem _ met))
    rintro rfl
    exact apart met

/-- Members are read to their end, one entry after the other. -/
theorem IsMembers.leaves (members : IsMembers es t) (fresh : Fresh given es) (rest : Text) :
    LeavesMembers given (es.foldl Given.add given) rest (t ++ '\x7d' :: rest) := by
  -- what is given so far grows by one entry, and stays apart from those that are still to come
  induction members generalizing given with
  | last before spells hasKey front middle value behind =>
    have member := finds_readMember spells hasKey front middle value
      (Json.ends_blanks (t := rest) behind (.inr (.inr rfl))) fresh.head
    have leaves := LeavesMembers.member before member (finds_readMembers_end false _ behind rest)
    simpa only [List.append_assoc, List.cons_append, List.foldl] using leaves
  | @more e es a k key b c v d t before spells hasKey front middle value behind _ ih =>
    have member := finds_readMember spells hasKey front middle value
      (Json.ends_blanks (t := t ++ '\x7d' :: rest) behind (.inl rfl)) fresh.head
    have leaves := LeavesMembers.member before member ((ih fresh.tail).behind behind)
    simpa only [List.append_assoc, List.cons_append, List.foldl] using leaves

/-! ## Objects -/

/-- Where every setting is given once, an object gives the standard style with its settings. -/
theorem IsObject.readSettings (object : IsObject es t) (once : (es.filterMap Entry.field?).Nodup) :
    ∃ rest, readSettings t = .ok (overlaid es, rest) ∧ Blanks rest := by
  have fresh : Fresh .none es := ⟨once, fun _ _ => List.not_mem_nil⟩
  cases object with
  | @empty a b c before inside behind =>
    obtain ⟨_, next⟩ := Json.next?_blanks (t := b ++ '\x7d' :: c) before (c := '\x7b') (by decide)
    obtain ⟨_, read⟩ := finds_readMembers_end true .none inside c
    refine ⟨c, ?_, behind⟩
    rw [Style.readSettings, next]
    simp only [Char.reduceEq, if_false, if_true, read]
    rfl
  | @members es a t c before members behind =>
    obtain ⟨_, next⟩ := Json.next?_blanks (t := t ++ '\x7d' :: c) before (c := '\x7b') (by decide)
    obtain ⟨_, read⟩ := (members.leaves fresh c).first
    refine ⟨c, ?_, behind⟩
    rw [Style.readSettings, next]
    simp only [Char.reduceEq, if_false, if_true, read]
    rw [Except.map, style_foldl_add, ← foldl_overlay_eq once]
    rfl

theorem IsObject.ofJson (object : IsObject es t) (once : (es.filterMap Entry.field?).Nodup) :
    ofJson t = if (overlaid es).indentSize ≤ widestIndent then .ok (overlaid es)
      else .error (.refused (.indentTooWide (overlaid es).indentSize)) := by
  obtain ⟨rest, read, blanks⟩ := object.readSettings once
  rw [Style.ofJson, read]
  simp only [List.all_eq_true.2 blanks, if_true, fault?]
  by_cases narrow : (overlaid es).indentSize ≤ widestIndent
  · simp only [if_pos narrow, if_neg (Nat.not_lt.2 narrow)]
  · simp only [if_neg narrow, if_pos (Nat.not_le.1 narrow)]

/-- An object in which every setting is given once gives the standard style with just these
settings, or is refused for its wide indentation. Any other object with the same settings, in
whatever order and with whatever other members, says the same. -/
theorem ofJson_object (object : IsObject es t) (once : (es.filterMap Entry.field?).Nodup) :
    (ofJson t = if (overlaid es).indentSize ≤ widestIndent then .ok (overlaid es)
      else .error (.refused (.indentTooWide (overlaid es).indentSize))) ∧
    ∀ fs u, IsObject fs u → (fs.filter Entry.isSetting).Perm (es.filter Entry.isSetting) →
      ofJson u = ofJson t := by
  refine ⟨object.ofJson once, fun fs u other same => ?_⟩
  rw [object.ofJson once, other.ofJson (nodup_of_perm once same), overlaid_of_perm once same]

/-- A key that begins with an escape, and in front of it an array that no setting asks for. Without
these and the blanks, the object says the same. -/
theorem ofJson_object_escaped :
    ofJson "\x7b\"n\":[null],\"\\u0069ndentSize\" : 65\x7d".toList =
        .error (.refused (.indentTooWide 65)) ∧
      ofJson "\x7b\"indentSize\":65\x7d".toList =
        ofJson "\x7b\"n\":[null],\"\\u0069ndentSize\" : 65\x7d".toList := by
  have nil := Json.blanks_nil
  have space : Blanks [' '] := by simp [Blanks, Json.isBlank]
  have word : 65 < widthLimit := by decide
  have digit : ∀ n < 10, Json.IsHexDigit n.digitChar n := fun n small => ⟨by omega, .inl rfl⟩
  have escape : Json.IsUnit ['0', '0', '6', '9'] 'i'.toNat :=
    .digits (digit 0 (by decide)) (digit 0 (by decide)) (digit 6 (by decide)) (digit 9 (by decide))
  have key : Spells "\\u0069ndentSize".toList "indentSize".toList :=
    .unit escape (Json.spells_self (by decide))
  have unknown : ∀ field : Field, field.key ≠ ['n'] := by
    rintro (_ | _) <;> cases ‹_› <;> decide
  have escaped : IsObject [.other ['n'], .size .indent 65]
      "\x7b\"n\":[null],\"\\u0069ndentSize\" : 65\x7d".toList :=
    .members nil
      (.more nil (Json.spells_self (by decide)) (.other unknown) nil nil
        (.any (.array (.last nil .null nil))) nil
        (.last nil key .size space space (.number word) nil)) nil
  have bare : IsObject [.size .indent 65] "\x7b\"indentSize\":65\x7d".toList :=
    .members nil (.last nil (spells_key (.size .indent)) .size nil nil (.number word) nil) nil
  have read := ofJson_object escaped (by decide)
  exact ⟨read.1, read.2 _ _ bare (.refl _)⟩

/-! ## Written styles -/

/-- What the member of a setting says. -/
def entry (style : Style) : Field → Entry
  | .flag f => .flag f (style.flag f)
  | .size s => .size s (style.size s)

theorem hasKey_entry (style : Style) (field : Field) : (style.entry field).HasKey field.key := by
  cases field with
  | flag f => exact .flag
  | size s => exact .size

theorem hasValue_entry (words : ∀ s, style.size s < widthLimit) (field : Field) :
    (style.entry field).HasValue (style.valueText field) := by
  cases field with
  | flag f =>
    rw [entry, valueText]
    cases style.flag f with
    | true => exact .yes
    | false => exact .no
  | size s => exact .number (words s)

theorem isMembers_memberTexts (words : ∀ s, style.size s < widthLimit) (field : Field)
    (fields : List Field) :
    IsMembers ((field :: fields).map style.entry)
      (Text.joined [','] ((field :: fields).map style.memberText)) := by
  have nil := Json.blanks_nil
  induction fields generalizing field with
  | nil =>
    have last := IsMembers.last nil (spells_key field) (hasKey_entry style field) nil nil
      (hasValue_entry words field) nil
    simpa [Text.joined, memberText] using last
  | cons next fields ih =>
    have more := IsMembers.more nil (spells_key field) (hasKey_entry style field) nil nil
      (hasValue_entry words field) nil (ih next)
    simpa [Text.joined, memberText] using more

theorem isObject_toJson (words : ∀ s, style.size s < widthLimit) :
    IsObject (Field.all.map style.entry) style.toJson :=
  .members Json.blanks_nil (isMembers_memberTexts words _ _) Json.blanks_nil

/-- A style with sizes of one machine word is read back from its object, or is refused for its wide
indentation. -/
theorem ofJson_toJson (style : Style) (words : ∀ s, style.size s < widthLimit) :
    ofJson style.toJson = if style.indentSize ≤ widestIndent then .ok style
      else .error (.refused (.indentTooWide style.indentSize)) :=
  (isObject_toJson words).ofJson (show Field.all.Nodup by decide)

/-- The greatest number of a machine word is read back. -/
theorem ofJson_toJson_widest :
    ofJson (toJson ⟨false, true, 64, 18446744073709551615, 0⟩) =
      .ok ⟨false, true, 64, 18446744073709551615, 0⟩ :=
  ofJson_toJson ⟨false, true, 64, 18446744073709551615, 0⟩ fun s => by cases s <;> decide

end SheetFormula.Style
