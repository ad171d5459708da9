import Mathlib
import BlockFlow.Proofs.Json.Reordering
import BlockFlow.Proofs.Lowering.Grammar

/-! Reading a program back from its tree. A source in which nothing is implicit is determined by the
tree that it is lowered to, up to the order of the keys of service calls. -/

namespace BlockFlow

open Json Lowering

/-- The fields of a service call, in the order in which they are read back. -/
def callFields (serviceId serviceAction : Json) (values : List Json) : List (String × Json) :=
  [("service_id", serviceId), ("service_action", serviceAction),
    ("service_call_values", .arr values)]

mutual

/-- An operation of the source with nothing implicit: literals are texts, calls have all their
fields, conditionals both branches and forks both lists, and no operation has a field that is not
used. -/
inductive Json.IsExactOperation : Json → Prop
  | monitor (descriptor : List (String × Json)) :
    IsExactOperation (.arr [.str Operation.waitForMonitor.tag, .obj descriptor])
  | call (call : List (String × Json)) (serviceId serviceAction : Json) (values : List Json)
      (hfields : call.Perm (callFields serviceId serviceAction values))
      (hvalues : ∀ v ∈ values, IsExactArgument v) :
    IsExactOperation (.arr [.str Operation.callService.tag, .obj call])
  | conditional (condition first second : Json) (hcondition : IsExactArgument condition)
      (hfirst : IsExactSequence first) (hsecond : IsExactSequence second) :
    IsExactOperation (.arr [.str Operation.ifElse.tag, condition, first, second])
  | fork (args paths : List Json) (hargs : ∀ v ∈ args, IsExactArgument v)
      (hpaths : ∀ v ∈ paths, IsExactSequence v) :
    IsExactOperation (.arr [.str Operation.forkExecution.tag, .arr args, .arr paths])
  | plain (tag : String) (fields : List Json)
      (htag : tag ∉ [Operation.waitForMonitor.tag, Operation.callService.tag,
        Operation.ifElse.tag, Operation.forkExecution.tag])
      (hargs : ∀ v ∈ fields, IsExactArgument v) :
    IsExactOperation (.arr (.str tag :: fields))

/-- A text or an operation. -/
inductive Json.IsExactArgument : Json → Prop
  | text (s : String) : IsExactArgument (.str s)
  | operation (v : Json) (h : IsExactOperation v) : IsExactArgument v

/-- A branch, a path or a whole program. -/
inductive Json.IsExactSequence : Json → Prop
  | operations (members : List Json) (h : ∀ v ∈ members, IsExactOperation v) :
    IsExactSequence (.arr members)

end

/-- One change of the order of the keys of a service call, at any depth. -/
inductive Json.CallReordered : Json → Json → Prop
  | fields {call call' : List (String × Json)} (hkeys : (call.map Prod.fst).Nodup)
      (h : call.Perm call') :
      CallReordered (.arr [.str Operation.callService.tag, .obj call])
        (.arr [.str Operation.callService.tag, .obj call'])
  | value {before after : List (String × Json)} {first last : List Json} {v w : Json}
      (h : CallReordered v w) :
      CallReordered
        (.arr [.str Operation.callService.tag,
          .obj (before ++ ("service_call_values", .arr (first ++ v :: last)) :: after)])
        (.arr [.str Operation.callService.tag,
          .obj (before ++ ("service_call_values", .arr (first ++ w :: last)) :: after)])
  | item {before after : List Json} {v w : Json} (h : CallReordered v w) :
      CallReordered (.arr (before ++ v :: after)) (.arr (before ++ w :: after))

/-- Equal up to the order of the keys of service calls. -/
def Json.SameSource : Json → Json → Prop := Relation.EqvGen CallReordered

mutual

/-- The operation that a block comes from. -/
def Block.source : Block → Json
  | .mk _ type args contents =>
    if type = Operation.forkExecution.tag then
      .arr [.str type, .arr (Args.sources args), .arr (Content.listSources contents)]
    else .arr (.str type :: (Args.sources args ++ Content.listSources contents))

/-- What arguments come from: one field for a monitor or a service call. -/
def Args.sources : Args → List Json
  | .list args => Arg.listSources args
  | .monitor descriptor => [.obj descriptor]
  | .call serviceId serviceAction values =>
    [.obj (callFields serviceId serviceAction (Arg.listSources values))]

def Arg.listSources : List Arg → List Json
  | [] => []
  | .constant text :: rest => .str text :: Arg.listSources rest
  | .block value :: rest => Block.listSources value ++ Arg.listSources rest

def Content.listSources : List Content → List Json
  | [] => []
  | .block b :: rest => Block.source b :: Content.listSources rest
  | .group contents :: rest => .arr (Content.listSources contents) :: Content.listSources rest

def Block.listSources : List Block → List Json
  | [] => []
  | b :: rest => Block.source b :: Block.listSources rest

end

/-- The program that a tree comes from. -/
def Graph.source (t : Graph) : Json := .arr (Block.listSources t)

/-! ### Reading back a source -/

namespace Json.SameSource

theorem refl (v : Json) : SameSource v v := Relation.EqvGen.refl v

theorem symm {v w : Json} (h : SameSource v w) : SameSource w v := Relation.EqvGen.symm _ _ h

theorem trans {u v w : Json} (h : SameSource u v) (h' : SameSource v w) : SameSource u w :=
  Relation.EqvGen.trans _ _ _ h h'

theorem lift {f : Json → Json} (hf : ∀ v w, CallReordered v w → CallReordered (f v) (f w))
    {v w : Json} (h : SameSource v w) : SameSource (f v) (f w) :=
  eqvGen_lift (fun v w hv => .rel _ _ (hf v w hv)) h

theorem items {xs ys : List Json} (h : List.Forall₂ SameSource xs ys) :
    SameSource (.arr xs) (.arr ys) := by
  refine rel_of_forall₂ refl trans (fun before after v w hv => ?_) h
  exact hv.lift (f := fun x => .arr (before ++ x :: after)) fun _ _ hc => .item hc

/-- The values of a call replaced by the same values. -/
theorem values {serviceId serviceAction : Json} {xs ys : List Json}
    (h : List.Forall₂ SameSource xs ys) :
    SameSource
      (.arr [.str Operation.callService.tag, .obj (callFields serviceId serviceAction xs)])
      (.arr [.str Operation.callService.tag, .obj (callFields serviceId serviceAction ys)]) := by
  refine rel_of_forall₂ (f := fun values => .arr [.str Operation.callService.tag,
    .obj (callFields serviceId serviceAction values)]) refl trans (fun first last v w hv => ?_) h
  refine hv.lift (f := fun x => .arr [.str Operation.callService.tag,
    .obj (callFields serviceId serviceAction (first ++ x :: last))]) fun x y hc => ?_
  exact @CallReordered.value [("service_id", serviceId), ("service_action", serviceAction)] []
    first last x y hc

end Json.SameSource

theorem lookup_perm {fields fields' : List (String × Json)} (h : fields.Perm fields')
    (hkeys : (fields.map Prod.fst).Nodup) (name : String) :
    fields.lookup name = fields'.lookup name := by
  induction h with
  | nil => rfl
  | cons field _ ih =>
    rw [List.map_cons, List.nodup_cons] at hkeys
    rw [List.lookup_cons, List.lookup_cons, ih hkeys.2]
  | swap x y rest =>
    obtain ⟨x, v⟩ := x
    obtain ⟨y, w⟩ := y
    have hxy : y ≠ x := by
      rw [List.map_cons, List.nodup_cons, List.map_cons] at hkeys
      exact fun he => hkeys.1 (he ▸ List.mem_cons_self)
    rw [List.lookup_cons, List.lookup_cons, List.lookup_cons, List.lookup_cons]
    by_cases hx : name = x
    · rw [beq_eq_false_iff_ne.mpr (hx ▸ hxy.symm : name ≠ y)]
    · rw [beq_eq_false_iff_ne.mpr hx]
  | trans h _ ih ih' => exact (ih hkeys).trans (ih' ((h.map Prod.fst).nodup_iff.mp hkeys))

theorem Block.listSources_cons (b : Block) (rest : List Block) :
    Block.listSources (b :: rest) = Block.listSources [b] ++ Block.listSources rest := by
  simp [Block.listSources]

theorem Arg.listSources_cons (a : Arg) (rest : List Arg) :
    Arg.listSources (a :: rest) = Arg.listSources [a] ++ Arg.listSources rest := by
  cases a <;> simp [Arg.listSources]

theorem Content.listSources_cons (c : Content) (rest : List Content) :
    Content.listSources (c :: rest) = Content.listSources [c] ++ Content.listSources rest := by
  cases c <;> simp [Content.listSources]

theorem Content.listSources_map_block (blocks : List Block) :
    Content.listSources (blocks.map .block) = Block.listSources blocks := by
  induction blocks with
  | nil => simp [Content.listSources, Block.listSources]
  | cons b rest ih => simp [Content.listSources, Block.listSources, ih]

/-- Values that are read back one by one are read back as a list. -/
theorem forall₂_sources {α : Type} {f : Json → Option α} {sources : List α → List Json}
    (hnil : sources [] = []) (hcons : ∀ a rest, sources (a :: rest) = sources [a] ++ sources rest)
    {values : List Json} {parts : List α}
    (hs : ∀ v ∈ values, ∀ a, f v = some a → List.Forall₂ SameSource [v] (sources [a]))
    (h : values.mapM f = some parts) : List.Forall₂ SameSource values (sources parts) := by
  rw [mapM_eq_some] at h
  induction h with
  | nil =>
    rw [hnil]
    exact .nil
  | cons hv _ ih =>
    rename_i v a values parts _
    rw [hcons]
    exact List.rel_append (hs v List.mem_cons_self a hv)
      (ih fun w hw => hs w (List.mem_cons_of_mem v hw))

theorem sameSource_args {values : List Json} {args : List Arg}
    (hs : ∀ v ∈ values, ∀ a, arg? v = some a → List.Forall₂ SameSource [v] (Arg.listSources [a]))
    (h : values.mapM arg? = some args) :
    List.Forall₂ SameSource values (Arg.listSources args) :=
  forall₂_sources (by simp [Arg.listSources]) Arg.listSources_cons hs h

theorem sameSource_bodies {values : List Json} {contents : List Content}
    (hs : ∀ v ∈ values, ∀ c, body? v = some c →
      List.Forall₂ SameSource [v] (Content.listSources [c]))
    (h : values.mapM body? = some contents) :
    List.Forall₂ SameSource values (Content.listSources contents) :=
  forall₂_sources (by simp [Content.listSources]) Content.listSources_cons hs h

theorem Block.source_of_ne {id : Json} {type : String} {args : Args} {contents : List Content}
    (h : type ≠ Operation.forkExecution.tag) : (Block.mk id type args contents).source =
      .arr (.str type :: (Args.sources args ++ Content.listSources contents)) := by
  rw [Block.source, if_neg h]

/-- The order of the keys of a service call does not matter. -/
theorem block?_call_perm {call call' : List (String × Json)} (hkeys : (call.map Prod.fst).Nodup)
    (h : call.Perm call') : block? (.arr [.str Operation.callService.tag, .obj call]) =
      block? (.arr [.str Operation.callService.tag, .obj call']) := by
  have hlookup := lookup_perm h hkeys
  have hvalues : callValues? call = callValues? call' := by
    refine Option.ext fun values => ?_
    rw [callValues?_eq_some_iff, callValues?_eq_some_iff, fieldOrNull, fieldOrNull, hlookup]
  rw [block?_call (Operation.ofTag?_tag _), block?_call (Operation.ofTag?_tag _)]
  simp only [hvalues, fieldOrNull, hlookup]

theorem block?_callFields (serviceId serviceAction : Json) (values : List Json) :
    block? (.arr [.str Operation.callService.tag,
      .obj (callFields serviceId serviceAction values)]) =
      (values.mapM arg?).map fun args =>
        .mk .null Operation.callService.tag (.call serviceId serviceAction args) [] := by
  rw [block?_call (Operation.ofTag?_tag _)]
  simp [callFields, callValues?_cons, fieldOrNull, List.lookup_cons]

theorem Json.IsExactOperation.exists_items {v : Json} (h : v.IsExactOperation) :
    ∃ items, v = .arr items := by
  cases h <;> exact ⟨_, rfl⟩

mutual

/-- What an exact operation becomes is read back as the operation. -/
theorem Json.IsExactOperation.sameSource {v : Json} : v.IsExactOperation →
    ∀ b, block? v = some b → SameSource v b.source
  | .monitor descriptor, b, h => by
    rw [block?_monitor (Operation.ofTag?_tag _)] at h
    cases h
    rw [Block.source_of_ne (by decide)]
    exact .refl _
  | .call call serviceId serviceAction values hfields hvalues, b, h => by
    have hkeys : (call.map Prod.fst).Nodup :=
      (hfields.map Prod.fst).nodup_iff.mpr (by simp [callFields])
    rw [block?_call_perm hkeys hfields, block?_callFields] at h
    obtain ⟨args, ha, rfl⟩ := Option.map_eq_some_iff.mp h
    have hvalues' := sameSource_args (fun v hv => (hvalues v hv).sameSource) ha
    rw [Block.source_of_ne (by decide)]
    exact .trans (.rel _ _ (.fields hkeys hfields)) (.values hvalues')
  | .conditional condition first second hcondition hfirst hsecond, b, h => by
    rw [block?_conditional (Operation.ofTag?_tag _)] at h
    obtain ⟨-, h⟩ := Option.ite_none_left_eq_some.mp h
    obtain ⟨contents, hc, h⟩ := Option.bind_eq_some_iff.mp h
    obtain ⟨arg, ha, rfl⟩ := Option.map_eq_some_iff.mp h
    have hlength : contents.length = 2 := (mapM_eq_some.mp hc).length_eq.symm
    have hbranches : List.Forall₂ SameSource [first, second] (Content.listSources contents) :=
      sameSource_bodies (by simpa using And.intro hfirst.sameSource hsecond.sameSource) hc
    rw [Block.source_of_ne (by decide), withElse, if_neg (by omega)]
    exact .items (.cons (.refl _) (List.rel_append (hcondition.sameSource arg ha) hbranches))
  | .fork args paths hargs hpaths, b, h => by
    rw [block?_fork (Operation.ofTag?_tag _)] at h
    obtain ⟨contents, hc, h⟩ := Option.bind_eq_some_iff.mp h
    obtain ⟨args', ha, rfl⟩ := Option.map_eq_some_iff.mp h
    have hargs' := sameSource_args (fun v hv => (hargs v hv).sameSource) ha
    have hpaths' := sameSource_bodies (fun v hv => (hpaths v hv).sameSource) hc
    rw [Block.source, if_pos rfl]
    exact .items (.cons (.refl _) (.cons (.items hargs') (.cons (.items hpaths') .nil)))
  | .plain tag fields htag hargs, b, h => by
    rw [block?_plain (isPlainTag_iff.mpr htag)] at h
    obtain ⟨args, ha, rfl⟩ := Option.map_eq_some_iff.mp h
    have hargs' := sameSource_args (fun v hv => (hargs v hv).sameSource) ha
    rw [Block.source_of_ne fun he => htag (by simp [he]), Content.listSources, List.append_nil]
    exact .items (.cons (.refl _) hargs')

theorem Json.IsExactArgument.sameSource {v : Json} : v.IsExactArgument →
    ∀ a, arg? v = some a → List.Forall₂ SameSource [v] (Arg.listSources [a])
  | .text s, a, h => by
    cases h
    simp [Arg.listSources, SameSource.refl]
  | .operation v hv, a, h => by
    have hsame := hv.sameSource
    obtain ⟨items, rfl⟩ := hv.exists_items
    rw [arg?_arr, Option.map_eq_some_iff] at h
    obtain ⟨b, hb, rfl⟩ := h
    simpa [Arg.listSources, Block.listSources] using hsame b hb

theorem Json.IsExactSequence.sameSource {v : Json} : v.IsExactSequence →
    ∀ c, body? v = some c → List.Forall₂ SameSource [v] (Content.listSources [c])
  | .operations members hmembers, c, h => by
    rw [body?, Option.map_eq_some_iff] at h
    obtain ⟨blocks, hb, rfl⟩ := h
    have hblocks : List.Forall₂ SameSource members (Block.listSources blocks) := by
      refine forall₂_sources (by simp [Block.listSources]) Block.listSources_cons ?_ hb
      intro v hv b hvb
      simpa [Block.listSources] using (hmembers v hv).sameSource b hvb
    simpa [Content.listSources, Content.listSources_map_block] using SameSource.items hblocks

end

/-! ### Lowering what is read back -/

/-- A block as lowering leaves it, with two branches if it is a conditional. -/
structure Block.Complete (b : Block) : Prop where
  lowered : b.Lowered
  branches : b.type = Operation.ifElse.tag → b.contents.length = 2

/-- Values of one kind that become the given parts. -/
structure Json.AreSources {α : Type} (kind : Json → Prop) (f : Json → Option α)
    (values : List Json) (parts : List α) : Prop where
  kinds : ∀ v ∈ values, kind v
  results : values.mapM f = some parts

section

variable {α : Type} {kind : Json → Prop} {f : Json → Option α} {values : List Json}
  {parts : List α}

theorem areSources_nil : AreSources kind f [] [] := ⟨by simp, rfl⟩

theorem Json.AreSources.cons {v : Json} {a : α} (hv : kind v) (ha : f v = some a)
    (h : AreSources kind f values parts) : AreSources kind f (v :: values) (a :: parts) :=
  ⟨List.forall_mem_cons.mpr ⟨hv, h.kinds⟩, mapM_eq_some.mpr (.cons ha (mapM_eq_some.mp h.results))⟩

theorem Json.AreSources.length_eq (h : AreSources kind f values parts) :
    values.length = parts.length := (mapM_eq_some.mp h.results).length_eq

end

/-- The source of a block, by the form of the block, from the sources of its parts. -/
theorem Block.Complete.isExact_source {b : Block} (h : b.Complete)
    (hargs : AreSources IsExactArgument arg? (Arg.listSources b.args.listed) b.args.listed)
    (hcontents : AreSources IsExactSequence body? (Content.listSources b.contents) b.contents) :
    b.source.IsExactOperation ∧ block? b.source = some b := by
  obtain ⟨id, type, args, contents⟩ := b
  obtain ⟨⟨hid, hshape, -⟩, hbranches⟩ := h
  simp only [Block.id, Block.type, Block.args, Block.contents] at *
  subst hid
  cases hshape with
  | monitor descriptor =>
    rw [Block.source_of_ne (by decide)]
    exact ⟨.monitor descriptor, block?_monitor (Operation.ofTag?_tag _) _⟩
  | call serviceId serviceAction values =>
    rw [Block.source_of_ne (by decide)]
    refine ⟨.call _ _ _ _ (.refl _) hargs.kinds, (block?_callFields _ _ _).trans ?_⟩
    exact congrArg (Option.map _) hargs.results
  | conditional condition branches =>
    obtain ⟨first, second, hpair⟩ : ∃ first second,
        Content.listSources (bodies branches) = [first, second] :=
      List.length_eq_two.mp (hcontents.length_eq.trans (hbranches rfl))
    obtain ⟨v, hv⟩ : ∃ v, Arg.listSources [condition] = [v] :=
      List.length_eq_one_iff.mp hargs.length_eq
    simp only [Args.listed, hv, hpair] at hargs hcontents
    have hcondition : arg? v = some condition := by simpa using mapM_eq_some.mp hargs.results
    have helse : withElse (bodies branches) = bodies branches := by
      rw [withElse, if_neg (by rw [hbranches rfl]; omega)]
    rw [Block.source_of_ne (by decide), Args.sources, hv, hpair]
    refine ⟨.conditional v first second (hargs.kinds v (by simp)) (hcontents.kinds first (by simp))
      (hcontents.kinds second (by simp)), ?_⟩
    rw [List.singleton_append, block?_conditional (Operation.ofTag?_tag _)]
    simp [hcontents.results, hcondition, helse]
  | fork args paths =>
    rw [Block.source, if_pos rfl]
    refine ⟨.fork _ _ hargs.kinds hcontents.kinds, ?_⟩
    rw [block?_fork (Operation.ofTag?_tag _)]
    simp only [Args.listed] at hargs
    simp [Args.sources, hcontents.results, hargs.results]
  | plain hplain args =>
    have htag := isPlainTag_iff.mp hplain
    rw [Block.source_of_ne fun he => htag (by simp [he]), Content.listSources, List.append_nil]
    refine ⟨.plain _ _ htag hargs.kinds, ?_⟩
    rw [block?_plain hplain]
    exact congrArg (Option.map _) hargs.results

mutual

theorem Block.isExact_source : ∀ (b : Block), (∀ x ∈ b.blocks, x.Complete) →
    b.source.IsExactOperation ∧ block? b.source = some b
  | .mk id type args contents, h => by
    obtain ⟨hself, hargs, hcontents⟩ := Block.forall_blocks.mp h
    exact hself.isExact_source (Args.areSources args hself.lowered.single hargs)
      (Content.areSources_groups contents hself.lowered.groups hcontents)

theorem Args.areSources : ∀ (args : Args),
    (∀ value, Arg.block value ∈ args.listed → ∃ x, value = [x]) →
    (∀ x ∈ args.blocks, x.Complete) →
      AreSources IsExactArgument arg? (Arg.listSources args.listed) args.listed
  | .list args, hsingle, h => Arg.areSources args hsingle h
  | .monitor _, _, _ => areSources_nil
  | .call _ _ values, hsingle, h => Arg.areSources values hsingle h

theorem Arg.areSources : ∀ (args : List Arg),
    (∀ value, Arg.block value ∈ args → ∃ x, value = [x]) →
    (∀ x ∈ Arg.listBlocks args, x.Complete) →
      AreSources IsExactArgument arg? (Arg.listSources args) args
  | [], _, _ => areSources_nil
  | .constant text :: rest, hsingle, h =>
    (Arg.areSources rest (fun value hv => hsingle value (List.mem_cons_of_mem _ hv)) h).cons
      (.text text) rfl
  | .block [] :: _, hsingle, _ => by
    obtain ⟨_, ⟨⟩⟩ := hsingle [] List.mem_cons_self
  | .block [b] :: rest, hsingle, h => by
    simp only [Arg.listBlocks, Block.listBlocks, List.append_nil, List.forall_mem_append] at h
    obtain ⟨hexact, hb⟩ := Block.isExact_source b h.1
    have hrest := Arg.areSources rest
      (fun value hv => hsingle value (List.mem_cons_of_mem _ hv)) h.2
    have harg : arg? b.source = some (.block [b]) := by
      obtain ⟨items, he⟩ := hexact.exists_items
      rw [he, arg?_arr, ← he, hb, Option.map_some]
    exact hrest.cons (.operation _ hexact) harg
  | .block (_ :: _ :: _) :: _, hsingle, _ => by
    obtain ⟨_, ⟨⟩⟩ := hsingle _ List.mem_cons_self

theorem Content.areSources_groups : ∀ (contents : List Content),
    (∀ c ∈ contents, ∃ blocks : List Block, c = .group (blocks.map .block)) →
    (∀ x ∈ Content.listBlocks contents, x.Complete) →
      AreSources IsExactSequence body? (Content.listSources contents) contents
  | [], _, _ => areSources_nil
  | .block b :: rest, hgroups, _ => by
    obtain ⟨_, ⟨⟩⟩ := hgroups _ List.mem_cons_self
  | .group contents :: rest, hgroups, h => by
    simp only [Content.listBlocks, List.forall_mem_append] at h
    obtain ⟨blocks, he⟩ := hgroups _ List.mem_cons_self
    have hbody := Content.areSources_blocks contents blocks (Content.group.inj he) h.1
    have hrest := Content.areSources_groups rest
      (fun c hc => hgroups c (List.mem_cons_of_mem _ hc)) h.2
    refine hrest.cons (.operations _ hbody.kinds) ?_
    rw [body?, hbody.results, Option.map_some, he]

theorem Content.areSources_blocks : ∀ (contents : List Content) (blocks : List Block),
    contents = blocks.map .block → (∀ x ∈ Content.listBlocks contents, x.Complete) →
      AreSources IsExactOperation block? (Content.listSources contents) blocks
  | [], [], _, _ => areSources_nil
  | .block b :: rest, _ :: blocks, he, h => by
    simp only [Content.listBlocks, List.forall_mem_append] at h
    simp only [List.map_cons, List.cons.injEq, Content.block.injEq] at he
    obtain ⟨hexact, hb⟩ := Block.isExact_source b h.1
    exact (Content.areSources_blocks rest blocks he.2 h.2).cons hexact (he.1 ▸ hb)
  | [], _ :: _, he, _ | .block _ :: _, [], he, _ | .group _ :: _, [], he, _
  | .group _ :: _, _ :: _, he, _ => by cases he

end

/-! ### Lowering a reordered source -/

/-- Arrays that are lowered alike, wherever they stand. -/
structure LoweredAlike (xs ys : List Json) : Prop where
  block : block? (.arr xs) = block? (.arr ys)
  args : xs.mapM arg? = ys.mapM arg?
  blocks : xs.mapM block? = ys.mapM block?
  bodies : xs.mapM body? = ys.mapM body?

theorem LoweredAlike.arg? {xs ys : List Json} (h : LoweredAlike xs ys) :
    arg? (.arr xs) = arg? (.arr ys) := by
  rw [arg?_arr, arg?_arr, h.block]

theorem LoweredAlike.body? {xs ys : List Json} (h : LoweredAlike xs ys) :
    body? (.arr xs) = body? (.arr ys) := by
  rw [Json.body?, Json.body?, h.blocks]

theorem mapM_replace {α : Type} {f : Json → Option α} {v w : Json} (h : f v = f w)
    (before after : List Json) : (before ++ v :: after).mapM f = (before ++ w :: after).mapM f := by
  rw [List.mapM_append, List.mapM_append, List.mapM_cons, List.mapM_cons, h]

/-- An array inside an operation replaced by one that is lowered alike. -/
theorem block?_replace {xs ys : List Json} (h : LoweredAlike xs ys) (before after : List Json) :
    block? (.arr (before ++ .arr xs :: after)) = block? (.arr (before ++ .arr ys :: after)) := by
  rcases before with _ | ⟨head, before⟩
  · rfl
  cases head with
  | str tag =>
    simp only [List.cons_append]
    rcases tag_cases tag with ht | ht | ht | ht | ht
    · rw [block?_monitor ht, block?_monitor ht]
      rcases before with _ | ⟨_ | _ | _ | _ | _ | _ | _, before⟩ <;> rfl
    · rw [block?_call ht, block?_call ht]
      rcases before with _ | ⟨_ | _ | _ | _ | _ | _ | _, before⟩ <;> rfl
    · rw [block?_conditional ht, block?_conditional ht]
      rcases before with _ | ⟨condition, before⟩
      · simp only [List.nil_append, h.arg?]
      · simp only [List.cons_append, mapM_replace h.body?, List.length_append, List.length_cons]
    · rw [block?_fork ht, block?_fork ht]
      rcases before with _ | ⟨args, _ | ⟨paths, before⟩⟩
      · rcases after with _ | ⟨_ | _ | _ | _ | _ | _ | _, after⟩ <;>
          simp only [List.nil_append, h.args]
      · cases args <;> simp only [List.cons_append, List.nil_append, h.bodies]
      · cases args <;> cases paths <;> rfl
    · rw [block?_plain ht, block?_plain ht, mapM_replace h.arg?]
  | _ => rfl

theorem callValues?_replace {xs ys : List Json} (h : xs.mapM arg? = ys.mapM arg?)
    (before after : List (String × Json)) :
    callValues? (before ++ ("service_call_values", .arr xs) :: after) =
      callValues? (before ++ ("service_call_values", .arr ys) :: after) := by
  induction before with
  | nil => simp only [List.nil_append, callValues?_cons, h]
  | cons field before ih =>
    obtain ⟨name, v⟩ := field
    rw [List.cons_append, List.cons_append, callValues?_cons, callValues?_cons, ih]

theorem Json.CallReordered.loweredAlike {v w : Json} (h : CallReordered v w) :
    ∃ xs ys, v = .arr xs ∧ w = .arr ys ∧ LoweredAlike xs ys := by
  induction h with
  | fields hkeys h => exact ⟨_, _, rfl, rfl, block?_call_perm hkeys h, rfl, rfl, rfl⟩
  | value _ ih =>
    rename_i before after first last v w _
    obtain ⟨xs, ys, rfl, rfl, halike⟩ := ih
    refine ⟨_, _, rfl, rfl, ?_, rfl, rfl, rfl⟩
    rw [block?_call (Operation.ofTag?_tag _), block?_call (Operation.ofTag?_tag _)]
    have hvalues := callValues?_replace (mapM_replace halike.arg? first last) before after
    simp only [hvalues, fieldOrNull_change (by decide : "service_id" ≠ "service_call_values") _
        (.arr (first ++ .arr ys :: last)) before after,
      fieldOrNull_change (by decide : "service_action" ≠ "service_call_values") _
        (.arr (first ++ .arr ys :: last)) before after]
  | item _ ih =>
    obtain ⟨xs, ys, rfl, rfl, halike⟩ := ih
    exact ⟨_, _, rfl, rfl, block?_replace halike _ _, mapM_replace halike.arg? _ _,
      mapM_replace halike.block _ _, mapM_replace halike.body? _ _⟩

theorem Json.SameSource.tree?_eq {p q : Json} (h : SameSource p q) : p.tree? = q.tree? := by
  induction h with
  | rel p q h =>
    obtain ⟨xs, ys, rfl, rfl, halike⟩ := h.loweredAlike
    exact halike.blocks
  | refl p => rfl
  | symm p q _ ih => exact ih.symm
  | trans p q r _ _ ih ih' => exact ih.trans ih'

/-! ### Programs -/

variable {tree : Graph}

theorem Json.IsExactSequence.sameSource_tree {p : Json} (hp : p.IsExactSequence)
    (h : p.tree? = some tree) : SameSource p tree.source := by
  cases p with
  | arr operations =>
    have hbody : body? (.arr operations) = some (.group (tree.map .block)) :=
      congrArg (Option.map _) h
    have hsources := hp.sameSource _ hbody
    rw [Content.listSources, Content.listSources_map_block] at hsources
    exact (List.forall₂_cons.mp hsources).1
  | _ => cases h

theorem Graph.isExact_source (h : ∀ b ∈ tree.blocks, b.Complete) :
    tree.source.IsExactSequence ∧ tree.source.tree? = some tree := by
  have hblocks : ∀ b ∈ Content.listBlocks (tree.map .block), b.Complete := by
    rw [Content.listBlocks_map_block]
    exact h
  have hsources := Content.areSources_blocks _ tree rfl hblocks
  rw [Content.listSources_map_block] at hsources
  exact ⟨.operations _ hsources.kinds, hsources.results⟩

/-- Two exact programs become the same tree exactly if they are equal up to the order of the keys of
service calls. A tree of a program in which each conditional has two branches is the tree of an
exact program, which is read back from it. -/
theorem lowering_loses_nothing :
    (∀ (least least' : Int) (path path' : Path) (p q : Json) (tree : Graph),
      p.IsExactSequence → q.IsExactSequence → (lowerProgram least path p).outcome = .ok tree →
        ((lowerProgram least' path' q).outcome = .ok tree ↔ SameSource p q)) ∧
    ∀ (least : Int) (path : Path) (program : Json) (tree : Graph),
      (lowerProgram least path program).outcome = .ok tree →
        (∀ b ∈ tree.blocks, b.type = Operation.ifElse.tag → b.contents.length = 2) →
          tree.source.IsExactSequence ∧
            (lowerProgram least path tree.source).outcome = .ok tree := by
  simp only [lowerProgram_eq_ok]
  constructor
  · intro _ _ _ _ p q tree hp hq hlowered
    constructor
    · intro hlowered'
      exact (hp.sameSource_tree hlowered).trans (hq.sameSource_tree hlowered').symm
    · intro hsame
      rw [← hsame.tree?_eq, hlowered]
  · intro _ _ program tree hlowered hbranches
    exact Graph.isExact_source fun b hb => ⟨isTree_of_tree? hlowered b hb, hbranches b hb⟩

/-- A call with its keys in another order than they are read back in. -/
def reorderedCall : Json :=
  .arr [.str "command_call_service", .obj [("service_call_values", .arr [.str "v"]),
    ("service_id", .null), ("service_action", .int 3)]]

def reorderedProgram : Json :=
  .arr [.arr [.str "control_if_else", reorderedCall, .arr [], .arr [.arr [.str "op_fork_execution",
    .arr [], .arr [.arr [reorderedCall]]]]]]

def reorderedTree : Graph :=
  let call := .mk .null "command_call_service" (.call .null (.int 3) [.constant "v"]) []
  [.mk .null "control_if_else" (.list [.block [call]])
    [.group [], .group [.block (.mk .null "op_fork_execution" (.list []) [.group [.block call]])]]]

theorem reorderedProgram_recovered :
    reorderedProgram.IsExactSequence ∧
      (lowerProgram 2 .top reorderedProgram).outcome = .ok reorderedTree ∧
      reorderedTree.source.IsExactSequence ∧ SameSource reorderedProgram reorderedTree.source := by
  have hcall : reorderedCall.IsExactOperation :=
    .call _ .null (.int 3) [.str "v"] (.trans (.swap _ _ _) (.cons _ (.swap _ _ _))) (by
      simpa using IsExactArgument.text "v")
  have hexact : reorderedProgram.IsExactSequence := by
    refine .operations _ (List.forall_mem_singleton.mpr ?_)
    refine .conditional _ _ _ (.operation _ hcall) (.operations [] (by simp)) ?_
    refine .operations _ (List.forall_mem_singleton.mpr ?_)
    refine .fork [] _ (by simp) (List.forall_mem_singleton.mpr ?_)
    exact .operations _ (List.forall_mem_singleton.mpr hcall)
  have hlowered : (lowerProgram 2 .top reorderedProgram).outcome = .ok reorderedTree := rfl
  obtain ⟨hsame, hrecovered⟩ := lowering_loses_nothing
  have hbranches : ∀ b ∈ reorderedTree.blocks, b.type = Operation.ifElse.tag →
      b.contents.length = 2 := by
    simp [reorderedTree, Graph.blocks, Block.listBlocks, Block.blocks, Args.blocks, Arg.listBlocks,
      Content.listBlocks, Block.type, Block.contents, Operation.tag]
  obtain ⟨hsource, hback⟩ := hrecovered 2 .top _ _ hlowered hbranches
  exact ⟨hexact, hlowered, hsource, (hsame 2 2 .top .top _ _ _ hexact hsource hlowered).mp hback⟩

end BlockFlow
