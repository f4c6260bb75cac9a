import Mathlib.Data.String.Basic
import MixinLink.Proofs.AllClasses
import MixinLink.Proofs.ClassMapping
import MixinLink.Tiny.Writer

/-!
# What is written about a table

Mapping text has a block of lines for each class that there is something to tell about: its mapped name,
or renamed members. The blocks stand in the order of the class names, so they are determined by what
there is to tell.

Main exports: `Tiny.Block`, `Tiny.Tells`, `Tiny.Listing`, `Tiny.exists_listing`,
`Tiny.Listing.eq_of_tells`.
-/

namespace MixinLink

/-- There is one way to list a set of things in a strict order. -/
theorem eq_of_mem_iff_of_strict {α κ : Type} [LinearOrder κ] {place : α → κ} {list other : List α}
    (strict : list.Pairwise fun a b => place a < place b)
    (otherStrict : other.Pairwise fun a b => place a < place b) (same : ∀ item, item ∈ list ↔ item ∈ other) :
    list = other := by
  have different : ∀ {items : List α}, (items.Pairwise fun a b => place a < place b) → items.Nodup :=
    fun sorted => sorted.imp fun less same => absurd (same ▸ less) (lt_irrefl _)
  have perm : list.Perm other :=
    (List.perm_ext_iff_of_nodup (different strict) (different otherStrict)).2 same
  exact perm.eq_of_pairwise (fun a b _ _ less greater => absurd less (lt_asymm greater)) strict otherStrict

namespace Tiny

open Table (Sound)

variable {table other : Table}

private theorem mem_sortedClasses (sound : table.Sound) {entry : ClassEntry} :
    entry ∈ sortedClasses table ↔ table.find? entry.name = some entry := by
  rw [sortedClasses, List.mem_mergeSort, sound.mem_allClasses]

/-- The classes are written in the order of their names, each of them once. -/
theorem sorted_sortedClasses (sound : table.Sound) :
    ((sortedClasses table).map ClassEntry.name).Pairwise fun a b => a.text < b.text := by
  have ordered : (sortedClasses table).Pairwise fun a b => a.name.precedes b.name = true := by
    refine List.pairwise_mergeSort (fun a b c first second => ?_) (fun a b => ?_) _
    · simp only [ClassName.precedes, decide_eq_true_eq] at first second ⊢
      exact le_trans first second
    · simpa [ClassName.precedes] using le_total a.name.text b.name.text
  have different : ((sortedClasses table).map ClassEntry.name).Nodup :=
    ((List.mergeSort_perm _ _).map _).nodup_iff.2 sound.nodup_allClasses
  rw [List.Nodup, List.pairwise_map] at different
  rw [List.pairwise_map]
  refine (ordered.and different).imp fun {a b} related => ?_
  exact lt_of_le_of_ne (of_decide_eq_true related.1) fun same => related.2 (ClassName.ext_text same)

/-! ## Blocks -/

/-- What is written about one class. -/
structure Block where
  name : ClassName
  mapped : ClassName
  fields : List FieldMapping
  methods : List MethodMapping
deriving DecidableEq

/-- There is something to tell. -/
def Block.IsTold (block : Block) : Prop :=
  ¬ (block.mapped = block.name ∧ block.fields = [] ∧ block.methods = [])

/-- The lines about a class. -/
def Block.lines (block : Block) : List String :=
  ("c\t" ++ block.name.text ++ "\t" ++ block.mapped.text ++ "\n")
    :: (block.fields.map fieldLine ++ block.methods.map methodLine)

/-- There is this to tell about a class of the table. -/
structure Tells (table : Table) (block : Block) : Prop where
  mapped : table.mapClass block.name = .ok block.mapped
  members : ∃ entry, table.find? block.name = some entry
    ∧ block.fields = writtenFields entry ∧ block.methods = writtenMethods entry
  told : block.IsTold

/-- The blocks of a table in the order in which they are written. -/
structure Listing (table : Table) (blocks : List Block) : Prop where
  mem : ∀ block, block ∈ blocks ↔ Tells table block
  sorted : (blocks.map Block.name).Pairwise fun a b => a.text < b.text

private theorem Tells.eq_of_name {block twin : Block} (tells : Tells table block)
    (twinTells : Tells table twin) (same : block.name = twin.name) : block = twin := by
  obtain ⟨mapped, ⟨entry, found, fields, methods⟩, _⟩ := tells
  obtain ⟨twinMapped, ⟨_, twinFound, twinFields, twinMethods⟩, _⟩ := twinTells
  rw [← same, found, Option.some.injEq] at twinFound
  subst twinFound
  rw [← same, mapped, Except.ok.injEq] at twinMapped
  cases block
  cases twin
  simp_all

private theorem classLines_eq {entry : ClassEntry} {mapped : ClassName}
    (maps : table.mapClass entry.name = .ok mapped) :
    classLines table entry
      = .ok (if mapped = entry.name ∧ writtenFields entry = [] ∧ writtenMethods entry = [] then []
        else (Block.mk entry.name mapped (writtenFields entry) (writtenMethods entry)).lines) := by
  unfold classLines
  simp only [maps, bind, Except.bind, pure, Except.pure]
  split <;> rfl

/-- The lines of some classes are those of the blocks about them. -/
theorem exists_blocks (sound : table.Sound) {entries : List ClassEntry}
    (present : ∀ entry ∈ entries, table.find? entry.name = some entry) :
    ∃ blocks : List Block, allClassLines table entries = .ok (blocks.flatMap Block.lines)
      ∧ (blocks.map Block.name).Sublist (entries.map ClassEntry.name)
      ∧ ∀ block, block ∈ blocks ↔ block.name ∈ entries.map ClassEntry.name ∧ Tells table block := by
  induction entries with
  | nil => exact ⟨[], rfl, List.Sublist.slnil, by simp⟩
  | cons entry entries ih =>
      obtain ⟨found, others⟩ := List.forall_mem_cons.1 present
      obtain ⟨blocks, lines, names, members⟩ := ih others
      obtain ⟨mapped, maps⟩ := sound.exists_mapClass entry.name
      let first : Block := ⟨entry.name, mapped, writtenFields entry, writtenMethods entry⟩
      have written : allClassLines table (entry :: entries)
          = .ok ((if mapped = entry.name ∧ writtenFields entry = [] ∧ writtenMethods entry = [] then []
            else first.lines) ++ blocks.flatMap Block.lines) := by
        simp only [allClassLines, classLines_eq maps, lines]
        rfl
      by_cases silent : mapped = entry.name ∧ writtenFields entry = [] ∧ writtenMethods entry = []
      · refine ⟨blocks, ?_, names.cons _, fun block => ?_⟩
        · rw [written, if_pos silent, List.nil_append]
        · rw [members, List.map_cons, List.mem_cons]
          refine ⟨fun told => ⟨.inr told.1, told.2⟩, fun told => ⟨?_, told.2⟩⟩
          rcases told.1 with same | later
          · -- a block about this class would have nothing to tell
            obtain ⟨blockMaps, ⟨_, blockFound, fields, methods⟩, isTold⟩ := told.2
            rw [same, found, Option.some.injEq] at blockFound
            rw [same, maps, Except.ok.injEq] at blockMaps
            subst blockFound
            exact absurd ⟨by rw [← blockMaps, silent.1, same], fields.trans silent.2.1,
              methods.trans silent.2.2⟩ isTold
          · exact later
      · have tells : Tells table first := ⟨maps, ⟨entry, found, rfl, rfl⟩, silent⟩
        refine ⟨first :: blocks, ?_, names.cons_cons _, fun block => ?_⟩
        · rw [written, if_neg silent, List.flatMap_cons]
        · rw [List.mem_cons, members, List.map_cons, List.mem_cons]
          constructor
          · rintro (rfl | told)
            · exact ⟨.inl rfl, tells⟩
            · exact ⟨.inr told.1, told.2⟩
          · rintro ⟨same | later, told⟩
            · exact .inl (told.eq_of_name tells same)
            · exact .inr ⟨later, told⟩

/-- Writing a sound table succeeds, with a block for each class that there is something to tell about. -/
theorem exists_listing (sound : table.Sound) :
    ∃ blocks, Listing table blocks
      ∧ write table
        = .ok (String.join (headerLine table.namespaces :: blocks.flatMap Block.lines)) := by
  obtain ⟨blocks, lines, names, members⟩ :=
    exists_blocks sound fun entry member => (mem_sortedClasses sound).1 member
  refine ⟨blocks, ⟨fun block => ?_, (sorted_sortedClasses sound).sublist names⟩, ?_⟩
  · rw [members]
    refine ⟨And.right, fun tells => ⟨?_, tells⟩⟩
    obtain ⟨entry, found, _⟩ := tells.members
    have named := sound.name_of_find? found
    rw [← named]
    exact List.mem_map_of_mem ((mem_sortedClasses sound).2 (named ▸ found))
  · rw [write, lines]
    rfl

/-- What there is to tell determines the blocks. -/
theorem Listing.eq_of_tells {blocks others : List Block} (listing : Listing table blocks)
    (otherListing : Listing other others) (same : ∀ block, Tells table block ↔ Tells other block) :
    blocks = others := by
  have ordered := List.pairwise_map.1 listing.sorted
  have otherOrdered := List.pairwise_map.1 otherListing.sorted
  refine eq_of_mem_iff_of_strict ordered otherOrdered fun block => ?_
  rw [listing.mem, otherListing.mem, same]

end Tiny

end MixinLink
