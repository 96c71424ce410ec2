import TagGateway.Proxy.CacheDirectives
import TagGateway.Foundation.CommaList

/-!
# The grammar of `Cache-Control`

A line lists directives. The argument of a directive is a token or a quoted string, in
which a backslash escapes the next character. The scan of the gateway drops the mark of
an escape at every character of a quoted string but the comma. So the mark of an escaped
comma may still stand when a quote comes, which then counts as escaped when it is not.
-/
namespace TagGateway.Proxy

open Foundation ListSlot

def isTokenChar (b : UInt8) : Bool :=
  isUpper b || isLower b || isDigit b || (ascii "!#$%&'*+-.^_`|~").elem b

/-- A character of a quoted string, as it stands or after a backslash. -/
inductive QuotedChar where
  | plain (b : UInt8)
  | escaped (b : UInt8)
deriving DecidableEq

namespace QuotedChar

def legal : QuotedChar → Bool
  | plain b => b == byte '\t' || (0x20 ≤ b && b != 0x7F && b != byte '"' && b != byte '\\')
  | escaped b => b == byte '\t' || (0x20 ≤ b && b != 0x7F)

def text : QuotedChar → Bytes
  | plain b => [b]
  | escaped b => [byte '\\', b]

end QuotedChar

inductive DirectiveArgument where
  | token (chars : Bytes)
  | quoted (chars : List QuotedChar)
deriving DecidableEq

namespace DirectiveArgument

def legal : DirectiveArgument → Bool
  | token chars => chars != [] && chars.all isTokenChar
  | quoted chars => chars.all QuotedChar.legal

def text : DirectiveArgument → Bytes
  | token chars => chars
  | quoted chars => byte '"' :: (chars.flatMap QuotedChar.text ++ [byte '"'])

end DirectiveArgument

structure Directive where
  name : Bytes
  argument : Option DirectiveArgument
  legal : (name != [] && name.all isTokenChar && argument.all DirectiveArgument.legal) = true

namespace Directive

def argumentText (d : Directive) : Bytes := d.argument.elim [] fun a => byte '=' :: a.text

def text (d : Directive) : Bytes := d.name ++ d.argumentText

def Forbids (d : Directive) : Prop :=
  d.name.map lowerByte = ascii "no-store" ∨ d.name.map lowerByte = ascii "private"

end Directive

/-- No quote of the string is met while the mark of an escaped comma stands: neither the
closing quote nor an escaped one. A backslash after such a mark clears it, and the
character behind the backslash is then taken as unescaped. -/
def quotesReadRight : Bool → List QuotedChar → Bool
  | marked, [] => !marked
  | marked, .plain b :: chars => quotesReadRight (marked && b == byte ',') chars
  | false, .escaped b :: chars => quotesReadRight (b == byte ',') chars
  | true, .escaped b :: chars => b != byte '"' && quotesReadRight (b == byte '\\') chars

def Directive.readRight (d : Directive) : Bool :=
  match d.argument with
  | some (.quoted chars) => quotesReadRight false chars
  | _ => true

/-! ## The scan of a directive -/

section Scan

variable {b : UInt8} {bs rest : Bytes} {marked : Bool} {chars : List QuotedChar}

theorem scanDirective_plain (hslash : b ≠ byte '\\') (hquote : b ≠ byte '"') :
    scanDirective true marked (b :: bs) = scanDirective true (marked && b == byte ',') bs := by
  by_cases hcomma : b = byte ','
  · subst hcomma
    simp [scanDirective, byte]
  · rw [scanDirective, if_neg hslash, if_neg hquote, if_neg hcomma, beq_eq_false_iff_ne.mpr hcomma,
      Bool.and_false]

theorem scanDirective_escaped :
    scanDirective true false (byte '\\' :: b :: bs) = scanDirective true (b == byte ',') bs := by
  by_cases hslash : b = byte '\\'
  · subst hslash
    simp [scanDirective, byte]
  · by_cases hquote : b = byte '"'
    · subst hquote
      simp [scanDirective, byte]
    · rw [scanDirective, if_pos rfl]
      exact scanDirective_plain hslash hquote

theorem scanDirective_escaped_marked (hquote : b ≠ byte '"') :
    scanDirective true true (byte '\\' :: b :: bs) = scanDirective true (b == byte '\\') bs := by
  by_cases hslash : b = byte '\\'
  · subst hslash
    simp [scanDirective]
  · rw [scanDirective, if_pos rfl]
    simp only [if_true, Bool.not_true]
    rw [scanDirective_plain hslash hquote, Bool.false_and, beq_eq_false_iff_ne.mpr hslash]

theorem QuotedChar.plain_ne (h : (QuotedChar.plain b).legal = true) :
    b ≠ byte '\\' ∧ b ≠ byte '"' := by
  constructor
  · rintro rfl
    exact absurd h (by decide)
  · rintro rfl
    exact absurd h (by decide)

/-- The scan leaves a quoted string at its closing quote. -/
theorem scanDirective_quoted (rest : Bytes) (hlegal : chars.all QuotedChar.legal = true)
    (hread : quotesReadRight marked chars = true) :
    scanDirective true marked (chars.flatMap QuotedChar.text ++ byte '"' :: rest) =
      scanDirective false false rest := by
  induction chars generalizing marked with
  | nil =>
    obtain rfl : marked = false := by simpa [quotesReadRight] using hread
    simp [scanDirective, byte]
  | cons c chars ih =>
    rw [List.all_cons, Bool.and_eq_true] at hlegal
    cases c with
    | plain b =>
      obtain ⟨hslash, hquote⟩ := QuotedChar.plain_ne hlegal.1
      rw [quotesReadRight] at hread
      exact (scanDirective_plain hslash hquote).trans (ih hlegal.2 hread)
    | escaped b =>
      cases marked with
      | false =>
        rw [quotesReadRight] at hread
        exact scanDirective_escaped.trans (ih hlegal.2 hread)
      | true =>
        rw [quotesReadRight, Bool.and_eq_true, bne_iff_ne] at hread
        exact (scanDirective_escaped_marked hread.1).trans (ih hlegal.2 hread.2)

/-- A string whose quotes are not all read right begins with one whose closing quote is
taken as escaped. -/
theorem exists_marked_of_not_readRight (hlegal : chars.all QuotedChar.legal = true)
    (hread : quotesReadRight marked chars = false) :
    ∃ p, p <+: chars ∧ ∀ rest, scanDirective true marked (p.flatMap QuotedChar.text ++ rest) =
      scanDirective true true rest := by
  induction chars generalizing marked with
  | nil =>
    obtain rfl : marked = true := by simpa [quotesReadRight] using hread
    exact ⟨[], List.prefix_refl [], fun rest => rfl⟩
  | cons c chars ih =>
    rw [List.all_cons, Bool.and_eq_true] at hlegal
    cases c with
    | plain b =>
      obtain ⟨hslash, hquote⟩ := QuotedChar.plain_ne hlegal.1
      rw [quotesReadRight] at hread
      obtain ⟨p, hp, hscan⟩ := ih hlegal.2 hread
      exact ⟨.plain b :: p, (List.prefix_cons_inj _).mpr hp, fun rest =>
        (scanDirective_plain hslash hquote).trans (hscan rest)⟩
    | escaped b =>
      cases marked with
      | false =>
        rw [quotesReadRight] at hread
        obtain ⟨p, hp, hscan⟩ := ih hlegal.2 hread
        exact ⟨.escaped b :: p, (List.prefix_cons_inj _).mpr hp, fun rest =>
          scanDirective_escaped.trans (hscan rest)⟩
      | true => exact ⟨[], List.nil_prefix, fun rest => rfl⟩

theorem scanDirective_unquoted
    (hbs : ∀ b ∈ bs, b ≠ byte '\\' ∧ b ≠ byte '"' ∧ b ≠ byte ',') :
    scanDirective false false (bs ++ rest) = scanDirective false false rest := by
  induction bs with
  | nil => rfl
  | cons b bs ih =>
    obtain ⟨hslash, hquote, hcomma⟩ := hbs b List.mem_cons_self
    rw [List.cons_append, scanDirective, if_neg hslash, if_neg hquote, if_neg hcomma]
    exact ih fun c hc => hbs c (List.mem_cons_of_mem b hc)

end Scan

theorem isTokenChar_ne {b : UInt8} (h : isTokenChar b = true) :
    endsDirectiveName b = false ∧ b ≠ byte '\\' ∧ b ≠ byte '"' ∧ b ≠ byte ',' := by
  have hother : ∀ c, isTokenChar c = false → b ≠ c := by
    rintro c hc rfl
    exact absurd (hc.symm.trans h) (by decide)
  have hends : endsDirectiveName b = false := by
    simp [endsDirectiveName, separatesDirectives, hother (byte '=') (by decide),
      hother (byte ',') (by decide), hother (byte ' ') (by decide), hother (byte '\t') (by decide)]
  exact ⟨hends, hother _ (by decide), hother _ (by decide), hother _ (by decide)⟩

theorem isBlank_ne {b : UInt8} (h : isBlank b = true) :
    separatesDirectives b = true ∧ b ≠ byte '\\' ∧ b ≠ byte '"' ∧ b ≠ byte ',' := by
  have hb : b = byte ' ' ∨ b = byte '\t' := by simpa [isBlank] using h
  rcases hb with rfl | rfl
  · decide
  · decide

namespace Directive

variable {d : Directive} {after rest : Bytes}

theorem name_legal (d : Directive) : d.name ≠ [] ∧ ∀ b ∈ d.name, isTokenChar b = true := by
  have hlegal := d.legal
  simp only [Bool.and_eq_true, bne_iff_ne, List.all_eq_true] at hlegal
  exact hlegal.1

theorem argument_legal {a : DirectiveArgument} (ha : d.argument = some a) : a.legal = true := by
  have hlegal := d.legal
  simp only [Bool.and_eq_true, ha, Option.all_some] at hlegal
  exact hlegal.2

/-- The scan passes over the argument of a directive and what follows up to the comma. -/
theorem scanDirective_argument (hread : d.readRight = true) (hafter : after.all isBlank = true) :
    scanDirective false false (d.argumentText ++ (after ++ rest)) =
      scanDirective false false rest := by
  have hblanks : scanDirective false false (after ++ rest) = scanDirective false false rest :=
    scanDirective_unquoted fun b hb => (isBlank_ne (List.all_eq_true.mp hafter b hb)).2
  unfold argumentText
  cases harg : d.argument with
  | none => exact hblanks
  | some a =>
    have hlegal := argument_legal harg
    cases a with
    | token chars =>
      rw [DirectiveArgument.legal, Bool.and_eq_true, List.all_eq_true] at hlegal
      refine (scanDirective_unquoted ?_).trans hblanks
      intro b hb
      rcases List.mem_cons.mp hb with rfl | hb
      · decide
      · exact (isTokenChar_ne (hlegal.2 b hb)).2
    | quoted chars =>
      have hquotes : quotesReadRight false chars = true := by simpa [readRight, harg] using hread
      have hscan := scanDirective_quoted (after ++ rest) hlegal hquotes
      simp only [Option.elim_some, DirectiveArgument.text, List.cons_append, List.append_assoc,
        List.nil_append]
      rw [scanDirective, if_neg (by decide), if_neg (by decide), if_neg (by decide), scanDirective,
        if_neg (by decide), if_pos rfl]
      exact hscan.trans hblanks

theorem foldCase_name (d : Directive) : foldCase d.name = d.name.map lowerByte := by
  have hascii : ∀ bs : Bytes, (∀ b ∈ bs, isTokenChar b = true) →
      foldCase bs = bs.map lowerByte := by
    intro bs hbs
    induction bs using foldCase.induct with
    | case1 => rfl
    | case2 bs ih => exact absurd (hbs 0xC5 (by simp)) (by decide)
    | case3 bs ih => exact absurd (hbs 0xE2 (by simp)) (by decide)
    | case4 b bs h₁ h₂ ih =>
      rw [foldCase.eq_4 b bs h₁ h₂, ih fun c hc => hbs c (List.mem_cons_of_mem b hc), List.map_cons]
  exact hascii d.name d.name_legal.2

theorem forbidsSharing_iff : forbidsSharing d.name = true ↔ d.Forbids := by
  simp [forbidsSharing, foldCase_name, Forbids]

end Directive

/-! ## The scan of a line -/

def lineForbids (line : Bytes) : Bool := (directiveNames line).any forbidsSharing

theorem lineForbids_separator {b : UInt8} (hb : separatesDirectives b = true) (line : Bytes) :
    lineForbids (b :: line) = lineForbids line := by
  cases line with
  | nil =>
    simp [lineForbids, directiveNames, hb, scanDirective]
    decide
  | cons c line => simp [lineForbids, directiveNames, hb]

theorem lineForbids_blanks {blanks : Bytes} (hblanks : blanks.all isBlank = true) (line : Bytes) :
    lineForbids (blanks ++ line) = lineForbids line := by
  induction blanks with
  | nil => rfl
  | cons b blanks ih =>
    rw [List.all_cons, Bool.and_eq_true] at hblanks
    exact (lineForbids_separator (isBlank_ne hblanks.1).1 _).trans (ih hblanks.2)

/-- The name of the directive is read up to what ends it. -/
theorem lineForbids_directive (d : Directive) {rest : Bytes}
    (hrest : rest.head?.all endsDirectiveName = true) :
    lineForbids (d.name ++ rest) =
      (forbidsSharing d.name || lineForbids (scanDirective false false rest)) := by
  obtain ⟨hne, hchars⟩ := d.name_legal
  have hname : ∀ b ∈ d.name, (!endsDirectiveName b) = true := fun b hb => by
    rw [(isTokenChar_ne (hchars b hb)).1]
    rfl
  have htake : (d.name ++ rest).takeWhile (!endsDirectiveName ·) = d.name ∧
      (d.name ++ rest).dropWhile (!endsDirectiveName ·) = rest := by
    rw [List.takeWhile_append_of_pos hname, List.dropWhile_append_of_pos hname]
    cases rest with
    | nil => simp
    | cons c cs =>
      have hc : endsDirectiveName c = true := hrest
      simp [hc]
  obtain ⟨b, bs, hcons⟩ := List.exists_cons_of_ne_nil hne
  have hskip : (d.name ++ rest).dropWhile separatesDirectives = d.name ++ rest := by
    have hb := (isTokenChar_ne (hchars b (by simp [hcons]))).1
    rw [endsDirectiveName, Bool.or_eq_false_iff] at hb
    rw [hcons, List.cons_append, List.dropWhile_cons, hb.2]
    rfl
  have hnames : directiveNames (d.name ++ rest) =
      d.name :: directiveNames (scanDirective false false rest) := by
    conv_lhs => rw [hcons, List.cons_append, directiveNames]
    simp only [← List.cons_append, ← hcons, hskip, htake]
  rw [lineForbids, hnames, List.any_cons, lineForbids]

theorem endsName_of_argument (d : Directive) {after rest : Bytes}
    (hafter : after.all isBlank = true) (hrest : rest.head?.all (· == byte ',') = true) :
    (d.argumentText ++ (after ++ rest)).head?.all endsDirectiveName = true := by
  unfold Directive.argumentText
  cases d.argument with
  | some a => rfl
  | none =>
    cases after with
    | cons b after =>
      rw [List.all_cons, Bool.and_eq_true] at hafter
      simp [endsDirectiveName, (isBlank_ne hafter.1).1]
    | nil =>
      cases rest with
      | nil => rfl
      | cons c cs =>
        obtain rfl : c = byte ',' := by simpa using hrest
        rfl

/-- A place of the list counts by what its directive forbids. -/
theorem lineForbids_slot {s : ListSlot Directive} (rest : Bytes)
    (hread : s.item.all Directive.readRight = true)
    (hrest : rest.head?.all (· == byte ',') = true) :
    lineForbids (s.text Directive.text ++ rest) =
      ((s.item.any fun d => forbidsSharing d.name) || lineForbids rest.tail) := by
  have hblank := s.blank
  rw [List.all_append, Bool.and_eq_true] at hblank
  rw [ListSlot.text, List.append_assoc, lineForbids_blanks hblank.1, List.append_assoc]
  cases hitem : s.item with
  | none =>
    rw [itemText, hitem, Option.elim_none, List.nil_append, lineForbids_blanks hblank.2,
      Option.any_none, Bool.false_or]
    cases rest with
    | nil => rfl
    | cons c cs =>
      obtain rfl : c = byte ',' := by simpa using hrest
      exact lineForbids_separator rfl cs
  | some d =>
    rw [hitem, Option.all_some] at hread
    have hscan : scanDirective false false rest = rest.tail := by
      cases rest with
      | nil => rfl
      | cons c cs =>
        obtain rfl : c = byte ',' := by simpa using hrest
        rfl
    rw [itemText, hitem, Option.elim_some, Directive.text, List.append_assoc,
      lineForbids_directive d (endsName_of_argument d hblank.2 hrest),
      Directive.scanDirective_argument hread hblank.2, hscan, Option.any_some]

/-- A line counts by what its directives forbid. -/
theorem lineForbids_listText {slots : List (ListSlot Directive)}
    (hread : ∀ d ∈ listItems slots, d.readRight = true) :
    lineForbids (listText Directive.text slots) =
      (listItems slots).any fun d => forbidsSharing d.name := by
  induction slots with
  | nil => simp [listText, listItems, lineForbids, directiveNames]
  | cons s slots ih =>
    have hslot : s.item.all Directive.readRight = true := by
      cases hitem : s.item with
      | none => rfl
      | some d => exact hread d (mem_listItems.mpr ⟨s, List.mem_cons_self, hitem⟩)
    have hany : (listItems (s :: slots)).any (fun d => forbidsSharing d.name) =
        ((s.item.any fun d => forbidsSharing d.name) ||
          (listItems slots).any fun d => forbidsSharing d.name) := by
      unfold listItems
      cases hitem : s.item with
      | none => simp [hitem]
      | some d => simp [hitem]
    have hrest := ih fun d hd => by
      obtain ⟨t, ht, hitem⟩ := mem_listItems.mp hd
      exact hread d (mem_listItems.mpr ⟨t, List.mem_cons_of_mem s ht, hitem⟩)
    rw [hany, ← hrest]
    cases slots with
    | nil =>
      have hlast := lineForbids_slot [] hslot rfl
      rwa [List.append_nil] at hlast
    | cons t slots => exact lineForbids_slot (byte ',' :: _) hslot rfl

def noStore : Directive := ⟨ascii "no-store", none, by decide⟩

def extension (chars : List QuotedChar) (h : chars.all QuotedChar.legal = true) : Directive :=
  ⟨ascii "x", some (.quoted chars), by
    rw [Option.all_some, DirectiveArgument.legal, h]
    decide⟩

/-- A quoted string whose closing quote is taken as escaped hides what follows it. -/
theorem lineForbids_hidden {chars : List QuotedChar} (h : chars.all QuotedChar.legal = true)
    (hscan : ∀ rest, scanDirective true false (chars.flatMap QuotedChar.text ++ rest) =
      scanDirective true true rest) :
    lineForbids (listText Directive.text [bare (extension chars h), bare noStore]) = false := by
  have htext : listText Directive.text [bare (extension chars h), bare noStore] =
      (extension chars h).name ++ (byte '=' :: byte '"' :: (chars.flatMap QuotedChar.text ++
        ascii "\",no-store")) := by
    simp [listText, ListSlot.text, itemText, bare, Directive.text, Directive.argumentText,
      extension, noStore, DirectiveArgument.text, ascii, byte]
  have hrest : scanDirective false false (byte '=' :: byte '"' :: (chars.flatMap QuotedChar.text ++
      ascii "\",no-store")) = [] := by
    rw [scanDirective, if_neg (by decide), if_neg (by decide), if_neg (by decide), scanDirective,
      if_neg (by decide), if_pos rfl]
    exact (hscan _).trans (by decide)
  rw [htext, lineForbids_directive _ rfl, hrest]
  simp [extension, lineForbids, directiveNames]
  decide

end TagGateway.Proxy
