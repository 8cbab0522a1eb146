import Mathlib.Data.List.Forall2
import VariantClasses.FileFilter
import VariantClasses.Proofs.Expand.Depth
import VariantClasses.Proofs.Expression
import VariantClasses.Transform

/-! # Spellings of extensions

A filter reads a listed extension without its leading dots and without regard to ASCII case. The
dialect of a file is chosen without regard to ASCII case alone, so an entry with a leading dot
names no file's extension there. The two readings agree on a path exactly when its extension, if
it is listed at all, is also listed without a leading dot (`dialectFor_reads_as_filter`).
-/

namespace VariantClasses

/-! ## Spellings -/

/-- Two spellings of an extension, equal but for leading dots and ASCII case. -/
def SameExtension (entry other : Text) : Prop :=
  listedExtension entry = listedExtension other

/-- A list holds a spelling of an extension. -/
def ListsExtension (entries : List Text) (extension : Text) : Prop :=
  ∃ entry ∈ entries, SameExtension entry extension

/-- A list holds a spelling of an extension that does not start with a dot. -/
def ListsUndotted (entries : List Text) (extension : Text) : Prop :=
  ∃ entry ∈ entries, entry.head? ≠ some '.' ∧ SameExtension entry extension

/-- If a list holds a spelling of the extension of a path, it holds one without a leading dot. -/
def DotsAside (entries : List Text) (path : Path) : Prop :=
  ∀ extension ∈ path.extension?, ListsExtension entries extension → ListsUndotted entries extension

instance (entry other : Text) : Decidable (SameExtension entry other) :=
  inferInstanceAs (Decidable (_ = _))

instance (entries : List Text) (extension : Text) : Decidable (ListsExtension entries extension) :=
  inferInstanceAs (Decidable (∃ entry ∈ entries, _))

instance (entries : List Text) (extension : Text) : Decidable (ListsUndotted entries extension) :=
  inferInstanceAs (Decidable (∃ entry ∈ entries, _))

instance (entries : List Text) (path : Path) : Decidable (DotsAside entries path) :=
  inferInstanceAs (Decidable (∀ extension ∈ path.extension?, _))

theorem listsExtension_of_undotted {entries : List Text} {extension : Text}
    (h : ListsUndotted entries extension) : ListsExtension entries extension := by
  obtain ⟨entry, hentry, -, hsame⟩ := h
  exact ⟨entry, hentry, hsame⟩

theorem toLower_eq_dot_iff {c : Char} : c.toLower = '.' ↔ c = '.' := by
  constructor
  · intro h
    unfold Char.toLower at h
    split at h
    next hupper =>
      -- The lower case letters stand behind the dot.
      have hlow : 65 ≤ c.val.toNat := UInt32.le_iff_toNat_le.mp hupper.1
      have hhigh : c.val.toNat ≤ 90 := UInt32.le_iff_toNat_le.mp hupper.2
      have hdot : (c.val + 32).toNat = 46 := congrArg Char.toNat h
      have hshift : (32 : UInt32).toNat = 32 := rfl
      rw [UInt32.toNat_add, hshift] at hdot
      omega
    next => exact h
  · rintro rfl
    rfl

theorem dot_mem_asciiLower_iff {text : Text} : '.' ∈ text.asciiLower ↔ '.' ∈ text := by
  simp [Text.asciiLower, toLower_eq_dot_iff]

theorem listedExtension_of_undotted {entry : Text} (h : entry.head? ≠ some '.') :
    listedExtension entry = entry.asciiLower := by
  rw [listedExtension]
  cases entry with
  | nil => rfl
  | cons c rest => rw [List.dropWhile_cons_of_neg (by simpa using h)]

theorem head?_ne_dot_of_not_mem {text : Text} (h : '.' ∉ text) : text.head? ≠ some '.' :=
  fun hhead => h (List.mem_of_head? hhead)

/-- The extension of a path holds no dot. -/
theorem not_dot_mem_extension {path : Path} {extension : Text}
    (h : path.extension? = some extension) : '.' ∉ extension := by
  obtain ⟨name, -, hname⟩ := Option.bind_eq_some_iff.mp h
  obtain ⟨⟨stem, after⟩, hcut, hstem⟩ := Option.bind_eq_some_iff.mp hname
  have hafter : after = extension := by
    dsimp only at hstem
    split at hstem
    next => cases hstem
    next => exact Option.some.inj hstem
  have hdot : '.' ∈ name := by simp [Text.eq_append_of_upToLast? hcut]
  obtain ⟨front, rest, hsplit, hrest⟩ := Text.exists_eq_append_of_mem hdot
  rw [hsplit, Text.upToLast?_append_cons hrest] at hcut
  cases hcut
  exact hafter ▸ hrest

/-- An entry is an extension without regard to case alone exactly when it is a spelling of it
without a leading dot. -/
theorem asciiLower_eq_iff {entry extension : Text} (h : '.' ∉ extension) :
    entry.asciiLower = extension.asciiLower ↔
      entry.head? ≠ some '.' ∧ SameExtension entry extension := by
  rw [SameExtension, listedExtension_of_undotted (head?_ne_dot_of_not_mem h)]
  constructor
  · intro heq
    have hentry : '.' ∉ entry := by
      rwa [← dot_mem_asciiLower_iff, heq, dot_mem_asciiLower_iff]
    have hhead := head?_ne_dot_of_not_mem hentry
    exact ⟨hhead, by rw [listedExtension_of_undotted hhead, heq]⟩
  · rintro ⟨hhead, hsame⟩
    rw [← hsame, listedExtension_of_undotted hhead]

/-! ## Two readings -/

theorem dialectFor_eq_className_iff {options : Options} {path : Path} :
    options.dialectFor path = .className ↔
      ∃ extension ∈ path.extension?, ListsUndotted options.jsxExtensions extension := by
  rw [Options.dialectFor]
  cases hextension : path.extension? with
  | none => simp
  | some extension =>
    simp [ListsUndotted, asciiLower_eq_iff (not_dot_mem_extension hextension)]

/-- The filter that accepts the listed extensions, and ignores nothing. -/
def extensionFilter (entries : List Text) : FileFilter :=
  ⟨entries.map listedExtension, []⟩

theorem new_extensionFilter (entries : List Text) :
    FileFilter.new entries [] = .ok (extensionFilter entries) :=
  rfl

theorem extensionFilter_accepts_iff {entries : List Text} {path : Path} :
    (extensionFilter entries).accepts path = true ↔
      ∃ extension ∈ path.extension?, ListsExtension entries extension := by
  rw [FileFilter.accepts, extensionFilter]
  cases hextension : path.extension? with
  | none => simp
  | some extension =>
    have hundotted := head?_ne_dot_of_not_mem (not_dot_mem_extension hextension)
    simp [ListsExtension, SameExtension, listedExtension_of_undotted hundotted, eq_comm]

theorem listsExtension_iff_of_forall₂ {entries others : List Text} {extension : Text}
    (h : List.Forall₂ SameExtension entries others) :
    ListsExtension entries extension ↔ ListsExtension others extension := by
  induction h with
  | nil => rfl
  | @cons entry other entries others hsame _ ih =>
    have hhead : SameExtension entry extension ↔ SameExtension other extension := by
      rw [SameExtension, SameExtension, hsame]
    simpa [ListsExtension, hhead] using or_congr_right ih

/-- The two readings agree on a path as long as its extension is not listed with leading dots
only. -/
theorem dialectFor_iff_accepts_iff {options : Options} {path : Path} :
    (options.dialectFor path = .className ↔
        (extensionFilter options.jsxExtensions).accepts path = true) ↔
      DotsAside options.jsxExtensions path := by
  rw [dialectFor_eq_className_iff, extensionFilter_accepts_iff, DotsAside]
  cases path.extension? with
  | none => simp
  | some extension =>
    simp only [Option.mem_some_iff, exists_eq_left', forall_eq']
    exact ⟨fun h => h.mpr, fun h => ⟨listsExtension_of_undotted, h⟩⟩

theorem Dialect.eq_iff {dialect other : Dialect} :
    dialect = other ↔ (dialect = .className ↔ other = .className) := by
  cases dialect <;> cases other <;> decide

/-- Two spellings of the listed extensions choose one dialect for a path exactly when the extension
of the path is listed with leading dots only in both or in neither. -/
theorem dialectFor_eq_iff {options changed : Options} {path : Path}
    (hsame : List.Forall₂ SameExtension options.jsxExtensions changed.jsxExtensions) :
    changed.dialectFor path = options.dialectFor path ↔
      (DotsAside options.jsxExtensions path ↔ DotsAside changed.jsxExtensions path) := by
  rw [Dialect.eq_iff, ← dialectFor_iff_accepts_iff, ← dialectFor_iff_accepts_iff,
    extensionFilter_accepts_iff, extensionFilter_accepts_iff]
  simp only [listsExtension_iff_of_forall₂ hsame]
  grind

/-- The class of an attribute `className` is named in the dialect of that attribute alone. -/
theorem mem_classes_iff (options : Options) {dialect : Dialect} :
    ['p'] ∈ (transform options dialect "<p className=\"p\">".toList).classes ↔
      dialect = .className := by
  rw [transform, mem_collect_all_iff]
  cases dialect with
  | class_ =>
    have hplain : (Pattern.plain Dialect.class_.attributeName.text).occurrences
        "<p className=\"p\">".toList = [] := by decide +kernel
    have hmodified : (Pattern.modified Dialect.class_.attributeName.text).occurrences
        "<p className=\"p\">".toList = [] := by decide +kernel
    simp only [mem_collected_iff, hplain, hmodified]
    simp
  | className =>
    have hplain : ∃ found ∈ (Pattern.plain Dialect.className.attributeName.text).occurrences
        "<p className=\"p\">".toList, ['p'] ∈ found.attr.plainClasses := by decide +kernel
    simp only [hplain, true_or]

theorem transform_eq_iff {options changed : Options} {dialect other : Dialect}
    (hdepth : changed.maxDepth = options.maxDepth) :
    (∀ text, transform changed other text = transform options dialect text) ↔ other = dialect := by
  constructor
  · intro h
    rw [Dialect.eq_iff, ← mem_classes_iff changed, h, mem_classes_iff]
  · rintro rfl text
    rw [transform, transform, hdepth]

/-- The dialect of a path is `className` exactly when the filter for the extensions of that dialect
accepts it, unless its extension is listed with leading dots only. Other spellings of the listed
extensions do not matter to what becomes of the files at a path exactly when that holds for both
lists or for neither. -/
theorem dialectFor_reads_as_filter (options : Options) (path : Path) :
    (∃ filter, FileFilter.new options.jsxExtensions [] = .ok filter ∧
      ((options.dialectFor path = .className ↔ filter.accepts path = true) ↔
        DotsAside options.jsxExtensions path)) ∧
      ∀ others, List.Forall₂ SameExtension options.jsxExtensions others →
        ((∀ text, transformFile { options with jsxExtensions := others } path text =
            transformFile options path text) ↔
          (DotsAside options.jsxExtensions path ↔ DotsAside others path)) := by
  refine ⟨⟨_, new_extensionFilter _, dialectFor_iff_accepts_iff⟩, ?_⟩
  intro others hsame
  let changed : Options := { options with jsxExtensions := others }
  have hdepth : changed.maxDepth = options.maxDepth := rfl
  exact (transform_eq_iff hdepth).trans (dialectFor_eq_iff hsame)

/-- An extension that is listed with dots, and also without, is read alike however its entries are
spelled. -/
theorem dialectFor_reads_as_filter_of_respelled_entries :
    let options : Options := { jsxExtensions := ["jsx", ".tsx", "TSX"].map String.toList }
    let others := ["JSX", "..tsx", "Tsx"].map String.toList
    let path := Path.ofString "src/Card.tSx"
    List.Forall₂ SameExtension options.jsxExtensions others ∧ DotsAside options.jsxExtensions path ∧
      DotsAside others path ∧ options.dialectFor path = .className ∧
      ∀ text, transformFile { options with jsxExtensions := others } path text =
        transformFile options path text := by
  intro options others path
  have hsame : List.Forall₂ SameExtension options.jsxExtensions others := by decide
  have hdots : DotsAside options.jsxExtensions path := by decide
  have hothers : DotsAside others path := by decide
  obtain ⟨⟨filter, hfilter, hiff⟩, hrespelled⟩ := dialectFor_reads_as_filter options path
  obtain rfl := Except.ok.inj hfilter
  exact ⟨hsame, hdots, hothers, (hiff.mpr hdots).mpr (by decide),
    (hrespelled others hsame).mpr (iff_of_true hdots hothers)⟩

/-- An extension that is listed with a dot only is accepted by the filter, and no file has the
dialect for it. Without the dot the same entry changes what becomes of a file. -/
theorem dialectFor_ne_className_of_dotted_entry :
    let options : Options := { jsxExtensions := [".jsx".toList] }
    let undotted : Options := { options with jsxExtensions := ["jsx".toList] }
    let path := Path.ofString "a.jsx"
    let text := "<p className:hover=\"x\">".toList
    (∃ filter, FileFilter.new options.jsxExtensions [] = .ok filter ∧
        filter.accepts path = true) ∧
      options.dialectFor path ≠ .className ∧
      List.Forall₂ SameExtension options.jsxExtensions undotted.jsxExtensions ∧
      (transformFile undotted path text).code = "<p className=\"hover:x\">".toList ∧
      (transformFile options path text).code = text := by
  intro options undotted path text
  exact ⟨⟨_, rfl, by decide⟩, by decide, by decide, by decide +kernel, by decide +kernel⟩

end VariantClasses
