import Mathlib
import BlockFlow.Canonical
import BlockFlow.Proofs.Graph.Blocks
import BlockFlow.Proofs.Lowering.Results

/-! What canonicalization makes of a block, apart from its warnings. -/

namespace BlockFlow

open Canonicalizing

theorem Content.listToJson_eq (contents : List Content) :
    Content.listToJson contents = contents.map Content.toJson := by
  induction contents with
  | nil => rfl
  | cons c rest ih => simp [Content.listToJson, ih]

theorem Arg.listToJson_eq (args : List Arg) : Arg.listToJson args = args.map Arg.toJson := by
  induction args with
  | nil => rfl
  | cons a rest ih => simp [Arg.listToJson, ih]

theorem Block.listToJson_eq (blocks : List Block) :
    Block.listToJson blocks = blocks.map Block.toJson := by
  induction blocks with
  | nil => rfl
  | cons b rest ih => simp [Block.listToJson, ih]

section

variable (typeOf : String → Option String)

mutual

/-- The canonical form of a block where unknown operations are let through. -/
def Block.form : Block → Block
  | .mk _ type args contents =>
    match Treatment.ofTag type with
    | .stripped =>
      .mk .null type (resolveReferences typeOf type (Args.withoutIds args))
        (Content.dropIds contents)
    | .ordered =>
      .mk .null type (resolveReferences typeOf type (Args.form args)) (Content.forms contents)
    | .serviceCall => .mk .null type (Args.callForm args) (Content.dropIds contents)
    | .commutative => .mk .null type (sortArgs (Args.form args)) (Content.dropIds contents)
    | .fork =>
      .mk .null type (dropDefaultExit (Args.form args))
        (sortByText Content.toJson (Content.forms contents))
    | .unknown => .mk .null type (Args.withoutIds args) (Content.dropIds contents)

def Args.form : Args → Args
  | .list args => .list (Arg.forms args)
  | .monitor descriptor => .monitor descriptor
  | .call serviceId serviceAction values => .call serviceId serviceAction (Arg.dropIds values)

def Args.callForm : Args → Args
  | .list args => .list (Arg.dropIds args)
  | .monitor descriptor => .monitor descriptor
  | .call serviceId serviceAction values => .call serviceId serviceAction (Arg.forms values)

def Arg.forms : List Arg → List Arg
  | [] => []
  | .constant value :: rest => .constant value :: Arg.forms rest
  | .block value :: rest => .block (Block.forms value) :: Arg.forms rest

def Content.forms : List Content → List Content
  | [] => []
  | .block b :: rest => .block (Block.form b) :: Content.forms rest
  | .group contents :: rest => .group (Content.forms contents) :: Content.forms rest

def Block.forms : List Block → List Block
  | [] => []
  | b :: rest => Block.form b :: Block.forms rest

end

end

variable {typeOf : String → Option String}

mutual

theorem canonicalBlock_result : ∀ (b : Block) {path : Path},
    (canonicalBlock false typeOf path b).result = some (b.form typeOf)
  | .mk id type args contents, path => by
    cases ht : Treatment.ofTag type <;>
      simp [canonicalBlock, Block.form, ht, canonicalArgs_result args, canonicalCall_result args,
        canonicalContents_result contents]

theorem canonicalArgs_result : ∀ (args : Args) {path : Path},
    (canonicalArgs false typeOf path args).result = some (args.form typeOf)
  | .list args, path => by simp [canonicalArgs, Args.form, canonicalArgList_result args]
  | .monitor descriptor, path => by simp [canonicalArgs, Args.form, Args.withoutIds]
  | .call serviceId serviceAction values, path => by
    simp [canonicalArgs, Args.form, Args.withoutIds]

theorem canonicalCall_result : ∀ (args : Args) {path : Path},
    (canonicalCall false typeOf path args).result = some (args.callForm typeOf)
  | .list args, path => by simp [canonicalCall, Args.callForm, Args.withoutIds]
  | .monitor descriptor, path => by simp [canonicalCall, Args.callForm, Args.withoutIds]
  | .call serviceId serviceAction values, path => by
    simp [canonicalCall, Args.callForm, canonicalArgList_result values]

theorem canonicalArgList_result : ∀ (args : List Arg) {path : Path} {i : Nat},
    (canonicalArgList false typeOf path i args).result = some (Arg.forms typeOf args)
  | [], path, i => by simp [canonicalArgList, Arg.forms]
  | .constant value :: rest, path, i => by
    simp [canonicalArgList, Arg.forms, canonicalArgList_result rest]
  | .block value :: rest, path, i => by
    simp [canonicalArgList, Arg.forms, canonicalBlocks_result value, canonicalArgList_result rest]

theorem canonicalContents_result : ∀ (contents : List Content) {path : Path} {i : Nat},
    (canonicalContents false typeOf path i contents).result = some (Content.forms typeOf contents)
  | [], path, i => by simp [canonicalContents, Content.forms]
  | .block b :: rest, path, i => by
    simp [canonicalContents, Content.forms, canonicalBlock_result b, canonicalContents_result rest]
  | .group contents :: rest, path, i => by
    simp [canonicalContents, Content.forms, canonicalContents_result contents,
      canonicalContents_result rest]

theorem canonicalBlocks_result : ∀ (blocks : List Block) {path : Path} {i : Nat},
    (canonicalBlocks false typeOf path i blocks).result = some (Block.forms typeOf blocks)
  | [], path, i => by simp [canonicalBlocks, Block.forms]
  | b :: rest, path, i => by
    simp [canonicalBlocks, Block.forms, canonicalBlock_result b, canonicalBlocks_result rest]

end

/-- The type of the block of a graph that has an id. -/
def Graph.typeAt (g : Graph) (id : String) : Option String := typeOfKey (.str id) g.blocks

/-- Every id that a block has can be a key. -/
def Graph.Keyed (g : Graph) : Prop := ∀ b ∈ g.blocks, b.hasId = true → b.id.key? ≠ none

theorem exists_blockKeys_iff {blocks : List Block} :
    (∃ keys, blockKeys blocks = .ok keys) ↔
      ∀ b ∈ blocks, b.hasId = true → b.id.key? ≠ none := by
  induction blocks with
  | nil => simp [blockKeys]
  | cons b rest ih =>
    rw [List.forall_mem_cons, ← ih, blockKeys]
    by_cases hb : b.hasId = true
    · cases hk : b.id.key? with
      | none => simp [hb, hk, Json.key, bind, Except.bind]
      | some key =>
        cases blockKeys rest <;> simp [hb, hk, Json.key, bind, Except.bind, pure, Except.pure]
    · simp [hb]

theorem Graph.canonical_eq {g : Graph} {strict : Bool} (hg : g.Keyed) :
    g.canonical strict = canonicalBlocks strict g.typeAt .top 0 g := by
  obtain ⟨keys, hkeys⟩ := exists_blockKeys_iff.mpr hg
  rw [Graph.canonical, hkeys]
  rfl

/-- Only graphs whose ids can be keys have a canonical form. -/
theorem Graph.keyed_of_canonical {g form : Graph} {strict : Bool}
    (h : (g.canonical strict).outcome = .ok form) : g.Keyed := by
  apply exists_blockKeys_iff.mp
  cases hk : blockKeys g.blocks with
  | ok keys => exact ⟨keys, rfl⟩
  | error e =>
    rw [Graph.canonical, hk] at h
    cases h

theorem Graph.canonical_outcome {g : Graph} (hg : g.Keyed) :
    (g.canonical false).outcome = .ok (Block.forms g.typeAt g) := by
  rw [← Traced.result_eq_some, Graph.canonical_eq hg]
  exact canonicalBlocks_result g

theorem canonical_of_verify {g : Graph} {problems : List Problem} (h : g.verify = .ok problems) :
    (g.canonical false).outcome = .ok (Block.forms g.typeAt g) := by
  apply Graph.canonical_outcome
  apply exists_blockKeys_iff.mp
  cases hk : blockKeys g.blocks with
  | error e => simp [Graph.verify, hk, bind, Except.bind] at h
  | ok keys => exact ⟨keys, rfl⟩

/-- A block without problems has an id, and its key is not among those seen. -/
theorem idProblems_cons_eq_nil {seen : List Key} {b : Block} {rest : List Block}
    (h : idProblems seen (b :: rest) = []) :
    b.hasId = true ∧ ∃ seen', (∀ key, key ∈ seen' ↔ b.id.key? = some key ∨ key ∈ seen) ∧
      (∀ key, b.id.key? = some key → key ∉ seen) ∧ idProblems seen' rest = [] := by
  unfold idProblems at h
  split at h
  · next hb =>
    refine ⟨hb, ?_⟩
    cases hk : b.id.key? with
    | none => exact ⟨seen, by simp, by simp, by simpa [hk] using h⟩
    | some key =>
      simp only [hk] at h
      split at h
      · simp at h
      · next hs => exact ⟨key :: seen, by simp [eq_comm], by simp_all, h⟩
  · simp at h

theorem key_fresh {seen : List Key} {blocks : List Block} (h : idProblems seen blocks = [])
    {b : Block} (hb : b ∈ blocks) {key : Key} (hk : b.id.key? = some key) : key ∉ seen := by
  induction blocks generalizing seen with
  | nil => simp at hb
  | cons a rest ih =>
    obtain ⟨_, seen', hs, hf, hr⟩ := idProblems_cons_eq_nil h
    rcases List.mem_cons.mp hb with rfl | hb
    · exact hf key hk
    · exact fun hin => ih hr hb ((hs key).mpr (.inr hin))

theorem typeOfKey_eq_none {key : Key} {blocks : List Block}
    (h : ∀ b ∈ blocks, b.id.key? ≠ some key) : typeOfKey key blocks = none := by
  induction blocks with
  | nil => rfl
  | cons a rest ih => simp_all [typeOfKey]

theorem typeOfKey_of_mem {seen : List Key} {blocks : List Block}
    (h : idProblems seen blocks = []) {b : Block} (hb : b ∈ blocks) {key : Key}
    (hk : b.id.key? = some key) : typeOfKey key blocks = some b.type := by
  induction blocks generalizing seen with
  | nil => simp at hb
  | cons a rest ih =>
    obtain ⟨hi, seen', hs, hf, hr⟩ := idProblems_cons_eq_nil h
    rcases List.mem_cons.mp hb with rfl | hb
    · have hn : typeOfKey key rest = none :=
        typeOfKey_eq_none fun c hc he => key_fresh hr hc he ((hs key).mpr (.inl hk))
      simp [typeOfKey, hn, hi, hk]
    · simp [typeOfKey, ih hr hb]

/-- In a graph without problems, the ids of blocks lead to their types. -/
theorem typeAt_of_verify {g : Graph} (h : g.verify = .ok []) {b : Block} (hb : b ∈ g.blocks)
    {id : String} (hid : b.id = .str id) : g.typeAt id = some b.type := by
  have hp : idProblems [] g.blocks = [] := by
    cases hk : blockKeys g.blocks <;>
      simp_all [Graph.verify, bind, Except.bind, pure, Except.pure]
  exact typeOfKey_of_mem hp hb (by simp [hid, Json.key?])

end BlockFlow
