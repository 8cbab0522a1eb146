import VariantClasses.Proofs.Attribute.Runs
import VariantClasses.Proofs.Expand.Tokens
import VariantClasses.Transform

/-! # Well-formed markup

Markup is text with blocks of attributes in it. It is well formed when its texts, chains
and values do not name the attribute and the values hold no mark that would end them, so
that attributes can stand in the blocks only. `Markup.transformed` says what becomes of it:
each block is rewritten, and the texts stay.
-/

namespace VariantClasses

open Text

/-! ## Markup -/

/-- Neighbouring attributes, each with the blanks before it. -/
structure Block where
  first : Text × Attribute
  more : List (Text × Attribute)
  deriving DecidableEq

def Block.attrs (block : Block) : List (Text × Attribute) :=
  block.first :: block.more

def Block.written (block : Block) : Text :=
  followersWritten block.attrs

theorem Block.written_eq_of_more {block : Block} (h : block.more = []) :
    block.written = block.first.1 ++ block.first.2.written := by
  simp [written, attrs, h, followersWritten]

/-- Text, and the blocks in it, each with the text behind it. -/
structure Markup where
  opening : Text
  parts : List (Block × Text)
  deriving DecidableEq

/-- The characters of blocks and texts, when `blockText` gives those of a block. -/
def partsWritten (blockText : Block → Text) (parts : List (Block × Text)) : Text :=
  parts.flatMap fun (block, text) => blockText block ++ text

theorem partsWritten_cons (blockText : Block → Text) (part : Block × Text)
    (parts : List (Block × Text)) : partsWritten blockText (part :: parts) =
      blockText part.1 ++ (part.2 ++ partsWritten blockText parts) := by
  simp [partsWritten]

theorem partsWritten_map (blockText : Block → Text) (f : Block → Block)
    (parts : List (Block × Text)) :
    partsWritten blockText (parts.map fun part => (f part.1, part.2)) =
      partsWritten (fun block => blockText (f block)) parts := by
  rw [partsWritten, List.flatMap_map]
  rfl

theorem partsWritten_congr {f g : Block → Text} {parts : List (Block × Text)}
    (h : ∀ part ∈ parts, f part.1 = g part.1) : partsWritten f parts = partsWritten g parts := by
  induction parts with
  | nil => rfl
  | cons part parts ih =>
    rw [partsWritten_cons, partsWritten_cons, h part List.mem_cons_self,
      ih fun other hother => h other (List.mem_cons_of_mem _ hother)]

def Markup.written (markup : Markup) : Text :=
  markup.opening ++ partsWritten Block.written markup.parts

/-! ## Well-formedness -/

/-- A text without the name `class`, with which both names of the attribute start. -/
def IsNameless (text : Text) : Prop :=
  includes AttributeName.class_.text text = false

instance (text : Text) : Decidable (IsNameless text) :=
  inferInstanceAs (Decidable (_ = _))

/-- A value that quotes of either kind can enclose, without an interpolation. -/
structure IsPlainValue (body : Text) : Prop where
  nameless : IsNameless body
  double : '"' ∉ body
  single : '\'' ∉ body
  interpolation : includes interpolation body = false

/-- A chain with a modifier in it. -/
structure IsChain (chain : Text) : Prop where
  nameless : IsNameless chain
  modifier : ∃ c ∈ chain, c ≠ ':'
  chars : ∀ c ∈ chain, isBlank c = false ∧ c ∉ "=\"'<>\x7b\x7d".toList

/-- The attributes of a block: plain ones with the name or its alias and modified ones
with the name. -/
inductive Attribute.WellFormed (name : AttributeName) : Attribute → Prop
  | plain {other body : Text} {value : Value} (hname : other ∈ name.mergedNames)
      (hvalue : value.quotedBody? = some body) (hbody : IsPlainValue body) :
      WellFormed name ⟨other, none, value⟩
  | modified {chain body : Text} {value : Value} (hchain : IsChain chain)
      (hvalue : value.quotedBody? = some body) (hbody : IsPlainValue body)
      (hspaces : ∀ c ∈ body, isBlank c = true → c = ' ') :
      WellFormed name ⟨name.text, some chain, value⟩

/-- A well-formed attribute behind blanks. -/
structure Block.Holds (name : AttributeName) (attr : Text × Attribute) : Prop where
  separated : attr.1 ≠ []
  blanks : ∀ c ∈ attr.1, isBlank c = true
  wellFormed : attr.2.WellFormed name

/-- Text that ends the attributes before it. -/
def EndsAttribute (text : Text) : Prop :=
  ∀ c ∈ text.head?, isBlank c = true ∨ c = '>' ∨ c = '/'

/-- Well-formed blocks, with a text between two that is not blank. -/
structure PartsWellFormed (name : AttributeName) (parts : List (Block × Text)) : Prop where
  blocks : ∀ part ∈ parts, ∀ attr ∈ part.1.attrs, Block.Holds name attr
  nameless : ∀ part ∈ parts, IsNameless part.2
  ends : ∀ part ∈ parts, EndsAttribute part.2
  between : ∀ part ∈ parts.dropLast, ∃ c ∈ part.2, isBlank c = false

structure Markup.WellFormed (name : AttributeName) (markup : Markup) : Prop where
  opening : IsNameless markup.opening
  parts : PartsWellFormed name markup.parts

theorem isNameless_iff {text : Text} :
    IsNameless text ↔ ¬AttributeName.class_.text <:+: text :=
  includes_eq_false_iff

theorem IsPlainValue.isClosed {value : Value} {body : Text} (hbody : IsPlainValue body)
    (h : value.quotedBody? = some body) : value.IsClosed := by
  cases value with
  | double inner => exact Option.some.inj h ▸ hbody.double
  | single inner => exact Option.some.inj h ▸ hbody.single
  | braced inner => cases h

theorem Attribute.WellFormed.isPlainValue {name : AttributeName} {attr : Attribute}
    (h : attr.WellFormed name) : IsPlainValue attr.quotedText := by
  cases h with
  | plain _ hvalue hbody => rwa [Attribute.quotedText, hvalue]
  | modified _ hvalue hbody _ => rwa [Attribute.quotedText, hvalue]

/-! ## Deciding well-formedness -/

theorem Attribute.wellFormed_iff {name : AttributeName} {attr : Attribute} :
    attr.WellFormed name ↔ ∃ body ∈ attr.value.quotedBody?, IsPlainValue body ∧
      ((attr.chain = none ∧ name.mergedNames.contains attr.name = true) ∨
        (∃ chain ∈ attr.chain, IsChain chain) ∧ attr.name = name.text ∧
          ∀ c ∈ body, isBlank c = true → c = ' ') := by
  constructor
  · intro h
    cases h with
    | plain hname hvalue hbody =>
      exact ⟨_, hvalue, hbody, .inl ⟨rfl, List.contains_iff_mem.mpr hname⟩⟩
    | modified hchain hvalue hbody hspaces =>
      exact ⟨_, hvalue, hbody, .inr ⟨⟨_, rfl, hchain⟩, rfl, hspaces⟩⟩
  · intro h
    obtain ⟨text, chain, value⟩ := attr
    obtain ⟨body, hvalue, hbody, ⟨rfl, hname⟩ | ⟨⟨chain, hattr, hchain⟩, rfl, hspaces⟩⟩ := h
    · exact .plain (List.contains_iff_mem.mp hname) hvalue hbody
    · obtain rfl : _ = some chain := hattr
      exact .modified hchain hvalue hbody hspaces

/-- The characters of the text are tried, not all characters there are. -/
instance decidableForallMemText (text : Text) (p : Char → Prop) [DecidablePred p] :
    Decidable (∀ c ∈ text, p c) :=
  List.decidableBAll p text

instance decidableExistsMemText (text : Text) (p : Char → Prop) [DecidablePred p] :
    Decidable (∃ c ∈ text, p c) :=
  List.decidableBEx p text

instance (body : Text) : Decidable (IsPlainValue body) :=
  decidable_of_iff (IsNameless body ∧ '"' ∉ body ∧ '\'' ∉ body ∧
      includes interpolation body = false)
    ⟨fun ⟨hname, hdouble, hsingle, hpart⟩ => ⟨hname, hdouble, hsingle, hpart⟩,
      fun h => ⟨h.nameless, h.double, h.single, h.interpolation⟩⟩

instance (chain : Text) : Decidable (IsChain chain) :=
  decidable_of_iff (IsNameless chain ∧ (∃ c ∈ chain, c ≠ ':') ∧
      ∀ c ∈ chain, isBlank c = false ∧ c ∉ "=\"'<>\x7b\x7d".toList)
    ⟨fun ⟨hname, hmodifier, hchars⟩ => ⟨hname, hmodifier, hchars⟩,
      fun h => ⟨h.nameless, h.modifier, h.chars⟩⟩

instance (name : AttributeName) (attr : Attribute) : Decidable (attr.WellFormed name) :=
  decidable_of_iff' _ Attribute.wellFormed_iff

instance (name : AttributeName) (attr : Text × Attribute) : Decidable (Block.Holds name attr) :=
  decidable_of_iff (attr.1 ≠ [] ∧ (∀ c ∈ attr.1, isBlank c = true) ∧ attr.2.WellFormed name)
    ⟨fun ⟨hne, hblanks, hattr⟩ => ⟨hne, hblanks, hattr⟩,
      fun h => ⟨h.separated, h.blanks, h.wellFormed⟩⟩

instance (text : Text) : Decidable (EndsAttribute text) :=
  text.head?.decidableForallMem

instance (name : AttributeName) (parts : List (Block × Text)) :
    Decidable (PartsWellFormed name parts) :=
  decidable_of_iff ((∀ part ∈ parts, ∀ attr ∈ part.1.attrs, Block.Holds name attr) ∧
      (∀ part ∈ parts, IsNameless part.2) ∧ (∀ part ∈ parts, EndsAttribute part.2) ∧
      ∀ part ∈ parts.dropLast, ∃ c ∈ part.2, isBlank c = false)
    ⟨fun ⟨hblocks, hnames, hends, hbetween⟩ => ⟨hblocks, hnames, hends, hbetween⟩,
      fun h => ⟨h.blocks, h.nameless, h.ends, h.between⟩⟩

instance (name : AttributeName) (markup : Markup) : Decidable (markup.WellFormed name) :=
  decidable_of_iff (IsNameless markup.opening ∧ PartsWellFormed name markup.parts)
    ⟨fun ⟨hopening, hparts⟩ => ⟨hopening, hparts⟩, fun h => ⟨h.opening, h.parts⟩⟩

/-! ## Transformed markup -/

/-- The classes of an attribute: those of its value, or their variants. -/
def Attribute.classText (depth : Nat) (attr : Attribute) : Text :=
  match attr.chain with
  | none => trim attr.quotedText
  | some chain =>
    joinWith [' '] ((words attr.quotedText).flatMap (variants depth (modifiersOf chain))).eraseDups

/-- The classes of a block, by the attributes that have some. -/
def Block.classTexts (depth : Nat) (block : Block) : List Text :=
  (block.attrs.map fun attr => attr.2.classText depth).filter (!·.isEmpty)

/-- What a block becomes. A plain attribute alone stays, and one attribute with all classes
takes the place of the others; when there are none, the last blank before the block goes
with it. -/
def Block.transformed (depth : Nat) (name : Text) (block : Block) : Text :=
  if block.more.isEmpty then
    if block.first.2.chain.isNone then block.written
    else block.first.1 ++ doubleQuoted name (block.first.2.classText depth)
  else if (block.classTexts depth).isEmpty then block.first.1.dropLast
  else block.first.1 ++ doubleQuoted name (joinWith [' '] (block.classTexts depth))

/-- What markup becomes. -/
def Markup.transformed (depth : Nat) (name : Text) (markup : Markup) : Text :=
  markup.opening ++ partsWritten (Block.transformed depth name) markup.parts

end VariantClasses
