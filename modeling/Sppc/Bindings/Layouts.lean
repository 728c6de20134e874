import Sppc.Bindings.Records

/-!
# The layout of the classes (`tools/main.py`)

Each class that is rendered for a record has the layout of the record, with its fields where the record has them,
exactly if no two records are bound by one name and no attribute changes what the types of the fields make of a
record.
-/

namespace Sppc.Bindings

/-! ### What the layouts are to be -/

mutual

/-- The records in a type. -/
def CType.usrs : CType → List Nat
  | .array element _ | .incompleteArray element => element.usrs
  | .record head fields => head.usr :: fields.usrs
  | .typedef _ named => named.usrs
  | _ => []

def CFields.usrs : CFields → List Nat
  | .nil => []
  | .cons _ type rest => type.usrs ++ rest.usrs

end

mutual

/-- No record has itself in its fields. -/
def CType.Acyclic : CType → Prop
  | .array element _ | .incompleteArray element => element.Acyclic
  | .record head fields => head.usr ∉ fields.usrs ∧ fields.Acyclic
  | .typedef _ named => named.Acyclic
  | _ => True

def CFields.Acyclic : CFields → Prop
  | .nil => True
  | .cons _ type rest => type.Acyclic ∧ rest.Acyclic

end

/-- The compiler aligns a record to a power of two, and makes its size a multiple of it. -/
structure AbiOk (abi : Nat → Layout) : Prop where
  align : ∀ usr, ∃ k, (abi usr).align = 2 ^ k
  size : ∀ usr, (abi usr).align ∣ (abi usr).size

variable {o : Options} {t : Target} {abi : Nat → Layout}

/-- The class has the layout of its record, and where the fields are listed each is where the record has it. -/
def ClassRight (t : Target) (abi : Nat → Layout) (older : List BoundClass) (c : BoundClass) : Prop :=
  ∃ placed, c.body.layout t (classLayout t older) = some placed ∧ placed.2 = abi c.head.usr ∧
    ∀ fields, c.body = .listed fields → placed.1 = c.fields.offsets

/-- All of the classes do. -/
def AllRight (t : Target) (abi : Nat → Layout) : List BoundClass → Prop
  | [] => True
  | c :: older => ClassRight t abi older c ∧ AllRight t abi older

/-- Each record that is bound has a class of its own with its layout. -/
structure BindingsRight (t : Target) (abi : Nat → Layout) (g : GenState) : Prop where
  own : ∀ usr name, (usr, name) ∈ g.names → ∃ c ∈ g.records, c.name = name ∧ c.head.usr = usr
  right : AllRight t abi g.records

/-- No two records are bound by one name. -/
def NoClash (g : GenState) : Prop := ∀ usr usr' name, (usr, name) ∈ g.names → (usr', name) ∈ g.names → usr = usr'

/-- Where the fields are listed, the layout of the record is what the rules of C make of their types.  Where they are
not, the alignment is that of an integer, of eight bytes at most. -/
def ClassNatural (t : Target) (abi : Nat → Layout) (c : BoundClass) : Prop :=
  match c.body with
  | .listed _ => Layout.ofFields (c.fields.layouts t abi) = (c.fields.offsets, abi c.head.usr)
  | .standIn .. => t.intAlign (min (abi c.head.usr).align 8) = (abi c.head.usr).align

/-! ### What stands for a type -/

section stands

variable {known known' : Nat → Name → Prop} {canon : Bool} {ct : CType} {st : SppType} {fields : CFields}
  {sts : List SppType}

/-- The type of S++ is made of the type of C, where records are known by names. -/
inductive Stands (known : Nat → Name → Prop) : Bool → CType → SppType → Prop
  | prim {canon ct p} : (∀ t abi, p.layout t = ct.layout t abi canon) → Stands known canon ct (.prim p)
  | array {canon element n e} : Stands known true element e → Stands known canon (.array element n) (.array e n)
  | record {canon head fields name} : known head.usr name → Stands known canon (.record head fields) (.cls name)
  | typedef {canon name named st} : canon = true ∨ namedTypedef name = none → Stands known canon named st →
      Stands known canon (.typedef name named) st

/-- So are those of the fields. -/
inductive FieldsStand (known : Nat → Name → Prop) : CFields → List SppType → Prop
  | nil : FieldsStand known .nil []
  | cons {f type rest st sts} : Stands known false type st → FieldsStand known rest sts →
      FieldsStand known (.cons f type rest) (st :: sts)

private theorem Stands.mono (hknown : ∀ usr name, known usr name → known' usr name) (h : Stands known canon ct st) :
    Stands known' canon ct st := by
  induction h with
  | prim hlayout => exact .prim hlayout
  | array _ ih => exact .array ih
  | record hname => exact .record (hknown _ _ hname)
  | typedef hname _ ih => exact .typedef hname ih

private theorem FieldsStand.mono (hknown : ∀ usr name, known usr name → known' usr name)
    (h : FieldsStand known fields sts) : FieldsStand known' fields sts := by
  induction h with
  | nil => exact .nil
  | cons htype _ ih => exact .cons (htype.mono hknown) ih

/-- What stands for a type has its layout, where the classes have those of the records. -/
private theorem Stands.layout {env : Name → Option Layout}
    (henv : ∀ usr name, known usr name → env name = some (abi usr)) (h : Stands known canon ct st) :
    st.layout t env = some (ct.layout t abi canon) := by
  induction h with
  | prim hlayout => rw [SppType.layout, hlayout t abi]
  | array _ ih =>
    rw [SppType.layout, ih]
    rfl
  | record hname => exact henv _ _ hname
  | typedef hname _ ih =>
    rw [ih, CType.layout, if_neg]
    rintro ⟨hcanon, hsome⟩
    rcases hname with hcanon' | hnone
    · rw [hcanon'] at hcanon
      cases hcanon
    · rw [hnone] at hsome
      cases hsome

private theorem FieldsStand.layouts {env : Name → Option Layout}
    (henv : ∀ usr name, known usr name → env name = some (abi usr)) (h : FieldsStand known fields sts) :
    sts.mapM (SppType.layout t env) = some (fields.layouts t abi) := by
  induction h with
  | nil => rfl
  | cons htype _ ih =>
    rw [List.mapM_cons, htype.layout henv, ih]
    rfl

end stands

/-! ### What the generator keeps -/

/-- A record is known by a name: there is a class of it, or another record is known by it too. -/
def Known (names : List (Nat × Name)) (records : List BoundClass) (usr : Nat) (name : Name) : Prop :=
  (usr, name) ∈ names ∧ (name ∈ records.map (·.name) ∨ ∃ usr', usr' ≠ usr ∧ (usr', name) ∈ names)

/-- A class is what stands for the fields of its record, or in their place. -/
def EntryOk (abi : Nat → Layout) (names : List (Nat × Name)) (older : List BoundClass) (c : BoundClass) : Prop :=
  (∃ fs, c.body = .listed fs ∧ FieldsStand (Known names older) c.fields (fs.map SppField.type)) ∨
    ∃ reason, c.body = .standIn reason (min (abi c.head.usr).align 8)
      ((abi c.head.usr).size / min (abi c.head.usr).align 8)

def EntriesOk (abi : Nat → Layout) (names : List (Nat × Name)) : List BoundClass → Prop
  | [] => True
  | c :: older => EntryOk abi names older c ∧ EntriesOk abi names older

/-- What holds of the generator within the records `within`. -/
structure Inv (abi : Nat → Layout) (within : List Nat) (g : GenState) : Prop where
  functional : ∀ usr name name', (usr, name) ∈ g.names → (usr, name') ∈ g.names → name = name'
  bound : ∀ usr name, (usr, name) ∈ g.names → usr ∈ within ∨ Known g.names g.records usr name
  progress : ∀ name ∈ g.inProgress, (∃ usr, (usr, name) ∈ g.names) ∧ name ∉ g.records.map (·.name)
  own : ∀ c ∈ g.records, (c.head.usr, c.name) ∈ g.names
  nodup : (g.records.map (·.name)).Nodup
  entries : EntriesOk abi g.names g.records

/-- A state of the generator after another. -/
structure Grows (g g' : GenState) : Prop where
  names : g.names ⊆ g'.names
  records : g.records ⊆ g'.records
  inProgress : g'.inProgress = g.inProgress

private theorem Grows.refl (g : GenState) : Grows g g := ⟨fun _ => id, fun _ => id, rfl⟩

private theorem Grows.trans {g g' g'' : GenState} (h : Grows g g') (h' : Grows g' g'') : Grows g g'' :=
  ⟨fun _ hmem => h'.names (h.names hmem), fun _ hmem => h'.records (h.records hmem), h'.inProgress.trans h.inProgress⟩

private theorem Known.mono {names names' : List (Nat × Name)} {records records' : List BoundClass}
    (hnames : names ⊆ names') (hrecords : records ⊆ records') (usr : Nat) (name : Name)
    (h : Known names records usr name) : Known names' records' usr name := by
  obtain ⟨hmem, hclass⟩ := h
  refine ⟨hnames hmem, hclass.imp (fun hname => List.map_subset _ hrecords hname) ?_⟩
  rintro ⟨usr', hne, hmem'⟩
  exact ⟨usr', hne, hnames hmem'⟩

private theorem EntriesOk.mono {names names' : List (Nat × Name)} (hnames : names ⊆ names')
    {records : List BoundClass} (h : EntriesOk abi names records) : EntriesOk abi names' records := by
  induction records with
  | nil => exact trivial
  | cons c older ih =>
    obtain ⟨hentry, hrest⟩ := h
    refine ⟨hentry.imp_left ?_, ih hrest⟩
    rintro ⟨fs, hbody, hstand⟩
    exact ⟨fs, hbody, hstand.mono (Known.mono hnames fun _ => id)⟩

section steps

variable {within : List Nat} {g m : GenState} {usr : Nat} {name : Name}

private theorem mem_names_of_lookup (h : g.names.lookup usr = some name) : (usr, name) ∈ g.names := by
  obtain ⟨l₁, l₂, hl, -⟩ := List.lookup_eq_some_iff.1 h
  rw [hl]
  exact List.mem_append_right _ List.mem_cons_self

private theorem not_mem_names_of_lookup (h : g.names.lookup usr = none) (name : Name) : (usr, name) ∉ g.names := by
  intro hmem
  have hne := List.lookup_eq_none_iff.1 h _ hmem
  rw [bne_self_eq_false] at hne
  cases hne

private theorem Inv.init (abi : Nat → Layout) : Inv abi [] .init :=
  ⟨fun _ _ _ h => (List.not_mem_nil h).elim, fun _ _ h => (List.not_mem_nil h).elim,
    fun _ h => (List.not_mem_nil h).elim, fun _ h => (List.not_mem_nil h).elim, List.nodup_nil, trivial⟩

private theorem functional_cons (hinv : Inv abi within g) (h : g.names.lookup usr = none) (name : Name) :
    ∀ u n n', (u, n) ∈ (usr, name) :: g.names → (u, n') ∈ (usr, name) :: g.names → n = n' := by
  intro u n n' hn hn'
  rcases List.mem_cons.1 hn with heq | hold <;> rcases List.mem_cons.1 hn' with heq' | hold'
  · cases heq
    cases heq'
    rfl
  · cases heq
    exact absurd hold' (not_mem_names_of_lookup h n')
  · cases heq'
    exact absurd hold (not_mem_names_of_lookup h n)
  · exact hinv.functional u n n' hold hold'

/-- A record that is not within itself is known once it has a name. -/
private theorem Inv.known (hinv : Inv abi within g) (hwithin : usr ∉ within) (h : g.names.lookup usr = some name) :
    Known g.names g.records usr name :=
  (hinv.bound usr name (mem_names_of_lookup h)).resolve_left hwithin

/-- A second record gets the name of a first. -/
private theorem Inv.clash (hinv : Inv abi within g) (h : g.names.lookup usr = none)
    (hname : name ∈ g.records.map (·.name) ∨ name ∈ g.inProgress) (clashes : List Name) :
    Inv abi within { g with names := (usr, name) :: g.names, clashes := clashes } ∧
      Known ((usr, name) :: g.names) g.records usr name := by
  have hsub : g.names ⊆ (usr, name) :: g.names := List.subset_cons_self _ _
  have hknown : Known ((usr, name) :: g.names) g.records usr name := by
    refine ⟨List.mem_cons_self, hname.imp_right fun hprogress => ?_⟩
    obtain ⟨⟨usr', hmem⟩, -⟩ := hinv.progress name hprogress
    refine ⟨usr', ?_, hsub hmem⟩
    rintro rfl
    exact not_mem_names_of_lookup h name hmem
  refine ⟨⟨functional_cons hinv h name, ?_, ?_, fun c hc => hsub (hinv.own c hc), hinv.nodup,
    hinv.entries.mono hsub⟩, hknown⟩
  · intro u n hmem
    rcases List.mem_cons.1 hmem with heq | hold
    · cases heq
      exact Or.inr hknown
    · exact (hinv.bound u n hold).imp_right (Known.mono hsub (fun _ => id) u n)
  · intro n hn
    obtain ⟨⟨u, hmem⟩, hfresh⟩ := hinv.progress n hn
    exact ⟨⟨u, hsub hmem⟩, hfresh⟩

/-- A record is begun. -/
private theorem Inv.enter (hinv : Inv abi within g) (h : g.names.lookup usr = none)
    (hname : name ∉ g.records.map (·.name)) :
    Inv abi (usr :: within) { g with names := (usr, name) :: g.names, inProgress := name :: g.inProgress } := by
  have hsub : g.names ⊆ (usr, name) :: g.names := List.subset_cons_self _ _
  refine ⟨functional_cons hinv h name, ?_, ?_, fun c hc => hsub (hinv.own c hc), hinv.nodup, hinv.entries.mono hsub⟩
  · intro u n hmem
    rcases List.mem_cons.1 hmem with heq | hold
    · cases heq
      exact Or.inl List.mem_cons_self
    · exact (hinv.bound u n hold).imp (List.mem_cons_of_mem usr) (Known.mono hsub (fun _ => id) u n)
  · intro n hn
    rcases List.mem_cons.1 hn with rfl | hold
    · exact ⟨⟨usr, List.mem_cons_self⟩, hname⟩
    · obtain ⟨⟨u, hmem⟩, hfresh⟩ := hinv.progress n hold
      exact ⟨⟨u, hsub hmem⟩, hfresh⟩

/-- A record is done: its class comes last. -/
private theorem Inv.leave {c : BoundClass} {inProgress : List Name} (hinv : Inv abi (c.head.usr :: within) m)
    (hprogress : m.inProgress = c.name :: inProgress) (hfresh : c.name ∉ inProgress)
    (hmem : (c.head.usr, c.name) ∈ m.names) (hentry : EntryOk abi m.names m.records c) :
    Inv abi within { m with records := c :: m.records, inProgress := inProgress } := by
  have hmine : c.name ∈ m.inProgress := hprogress ▸ List.mem_cons_self
  refine ⟨hinv.functional, ?_, ?_, ?_, List.nodup_cons.2 ⟨(hinv.progress _ hmine).2, hinv.nodup⟩, hentry,
    hinv.entries⟩
  · intro u n hn
    rcases hinv.bound u n hn with hwithin | hknown
    · rcases List.mem_cons.1 hwithin with rfl | hwithin
      · have heq := hinv.functional _ _ _ hn hmem
        exact Or.inr ⟨hn, Or.inl (heq ▸ List.mem_cons_self)⟩
      · exact Or.inl hwithin
    · exact Or.inr (hknown.mono (fun _ => id) (List.subset_cons_self _ _))
  · intro n hn
    obtain ⟨hnamed, hnot⟩ := hinv.progress n (hprogress ▸ List.mem_cons_of_mem _ hn)
    refine ⟨hnamed, fun hclass => ?_⟩
    rcases List.mem_cons.1 hclass with rfl | hclass
    · exact hfresh hn
    · exact hnot hclass
  · intro c' hc'
    rcases List.mem_cons.1 hc' with rfl | hc'
    · exact hmem
    · exact hinv.own c' hc'

end steps

/-! ### Runs of the generator -/

section runs

variable {within : List Nat} {g : GenState} {canon : Bool} {ct : CType}

/-- What `map_type` is to keep and to give. -/
structure TypeMapped (abi : Nat → Layout) (within : List Nat) (g : GenState) (canon : Bool) (ct : CType)
    (r : Except Unsupported SppType × GenState) : Prop where
  inv : Inv abi within r.2
  grows : Grows g r.2
  stands : ∀ st, r.1 = .ok st → Stands (Known r.2.names r.2.records) canon ct st

/-- What the loop over the fields is to keep and to give. -/
structure FieldsMapped (abi : Nat → Layout) (within : List Nat) (g : GenState) (fields : CFields)
    (r : List (Name × Except String SppType) × GenState) : Prop where
  inv : Inv abi within r.2
  grows : Grows g r.2
  stands : ∀ sts, r.1.mapM Prod.snd = .ok sts → FieldsStand (Known r.2.names r.2.records) fields sts

/-- The types that are of `std::cffi`. -/
private theorem TypeMapped.leaf {r : Except Unsupported SppType} (hinv : Inv abi within g)
    (h : ∀ st, r = .ok st → ∃ p, st = .prim p ∧ ∀ t abi, p.layout t = ct.layout t abi canon) :
    TypeMapped abi within g canon ct (r, g) := by
  refine ⟨hinv, Grows.refl g, fun st hst => ?_⟩
  obtain ⟨p, rfl, hlayout⟩ := h st hst
  exact .prim hlayout

private theorem TypeMapped.prim {p : SppPrim} (hinv : Inv abi within g)
    (h : ∀ t abi, p.layout t = ct.layout t abi canon) :
    TypeMapped abi within g canon ct (.ok (.prim p), g) := by
  refine TypeMapped.leaf hinv fun st hst => ?_
  cases hst
  exact ⟨p, rfl, h⟩

private theorem TypeMapped.error {e : Unsupported} (hinv : Inv abi within g) :
    TypeMapped abi within g canon ct (.error e, g) :=
  TypeMapped.leaf hinv fun _ h => nomatch h

/-- An integer of S++ has the size of that of C. -/
private theorem mapInteger_layout {isUnsigned : Bool} {size : Nat} {st : SppType}
    (h : mapInteger isUnsigned size = .ok st) : ∃ p, st = .prim p ∧ ∀ t, p.layout t = t.int size := by
  unfold mapInteger at h
  split at h <;> cases h <;> exact ⟨_, rfl, fun _ => rfl⟩

private theorem namedTypedef_layout {name : Name} {p : SppPrim} (h : namedTypedef name = some p) (t : Target) :
    p.layout t = t.sizeT := by
  unfold namedTypedef at h
  split at h
  · cases h
    rfl
  · split at h <;> cases h
    rfl

/-- A record that has had no name gets one, and then its class. -/
private theorem TypeMapped.record [Unicode] {head : RecordHead} {fields : CFields} {name : Name}
    {mapped : List (Name × Except String SppType) × GenState} (hname : name ∉ g.inProgress)
    (hinv : Inv abi (head.usr :: within) mapped.2)
    (hgrows : Grows { g with names := (head.usr, name) :: g.names, inProgress := name :: g.inProgress } mapped.2)
    (hstands : head.isUnion = false → ∀ sts, mapped.1.mapM Prod.snd = .ok sts →
      FieldsStand (Known mapped.2.names mapped.2.records) fields sts) :
    TypeMapped abi within g canon (.record head fields) (.ok (.cls name), { mapped.2 with
      records := ⟨name, head, fields, renderRecord head.isUnion (abi head.usr).size (abi head.usr).align mapped.1⟩ ::
        mapped.2.records
      inProgress := g.inProgress }) := by
  have hmem : (head.usr, name) ∈ mapped.2.names := hgrows.names List.mem_cons_self
  refine ⟨hinv.leave hgrows.inProgress hname hmem ?_, ?_, fun st hst => ?_⟩
  · rcases renderRecord_cases head.isUnion (abi head.usr).size (abi head.usr).align mapped.1 with
      ⟨hlisted, fs, hfs, hbody⟩ | ⟨-, reason, hbody⟩
    · exact Or.inl ⟨fs, hbody, hstands hlisted.1 _ (renderFields_types hfs)⟩
    · exact Or.inr ⟨reason, hbody⟩
  · exact ⟨fun _ hold => hgrows.names (List.mem_cons_of_mem _ hold),
      fun _ hold => List.mem_cons_of_mem _ (hgrows.records hold), rfl⟩
  · cases hst
    exact .record ⟨hmem, Or.inl List.mem_cons_self⟩

/-- The loop stops at a field that cannot be listed. -/
private theorem FieldsMapped.stop {g' : GenState} {fields : CFields} {spelling : Name} {e : String}
    (hinv : Inv abi within g') (hgrows : Grows g g') :
    FieldsMapped abi within g fields ([(spelling, .error e)], g') :=
  ⟨hinv, hgrows, fun _ h => nomatch h⟩

private theorem mapM_cons_ok {spelling : Name} {st : SppType} {fields : List (Name × Except String SppType)}
    {sts : List SppType} (h : ((spelling, .ok st) :: fields).mapM Prod.snd = .ok sts) :
    ∃ sts', fields.mapM Prod.snd = .ok sts' ∧ sts = st :: sts' := by
  rw [List.mapM_cons] at h
  cases hfields : fields.mapM Prod.snd with
  | error e =>
    rw [hfields] at h
    cases h
  | ok sts' =>
    rw [hfields] at h
    cases h
    exact ⟨sts', rfl, rfl⟩

mutual

private theorem mapType_spec [Unicode] (o : Options) (abi : Nat → Layout) :
    ∀ (ct : CType) (canon : Bool) (spelt : List Name) {within : List Nat} {g : GenState}, Inv abi within g →
      ct.Acyclic → (∀ usr ∈ ct.usrs, usr ∉ within) → TypeMapped abi within g canon ct (mapType o abi canon spelt ct g)
  | .bool, _, _, _, _, hinv, _, _ | .char, _, _, _, _, hinv, _, _ | .float, _, _, _, _, hinv, _, _
  | .double, _, _, _, _, hinv, _, _ | .pointer _, _, _, _, _, hinv, _, _ => by
    rw [mapType]
    exact TypeMapped.prim hinv fun _ _ => rfl
  | .int _ size, _, _, _, _, hinv, _, _ | .enum _ size, _, _, _, _, hinv, _, _ => by
    rw [mapType]
    refine TypeMapped.leaf hinv fun st hst => ?_
    obtain ⟨p, hp, hlayout⟩ := mapInteger_layout hst
    exact ⟨p, hp, fun t _ => hlayout t⟩
  | .incompleteArray _, _, _, _, _, hinv, _, _ | .other _ _, _, _, _, _, hinv, _, _ => by
    rw [mapType]
    exact TypeMapped.error hinv
  | .array element n, _, _, _, _, hinv, hacyclic, hnew => by
    have ih := mapType_spec o abi element true [] hinv hacyclic hnew
    rw [mapType]
    split
    · rename_i e g' heq
      rw [heq] at ih
      refine ⟨ih.inv, ih.grows, fun st hst => ?_⟩
      cases hst
      exact .array (ih.stands e rfl)
    · rename_i e g' heq
      rw [heq] at ih
      exact ⟨ih.inv, ih.grows, fun st hst => nomatch hst⟩
  | .typedef name named, canon, spelt, _, _, hinv, hacyclic, hnew => by
    rw [mapType]
    cases canon with
    | true =>
      have ih := mapType_spec o abi named true [] hinv hacyclic hnew
      exact ⟨ih.inv, ih.grows, fun st hst => .typedef (Or.inl rfl) (ih.stands st hst)⟩
    | false =>
      rw [if_neg Bool.false_ne_true]
      split
      · rename_i p hp
        refine TypeMapped.prim hinv fun t abi => ?_
        rw [namedTypedef_layout hp, CType.layout, if_pos ⟨rfl, Option.isSome_of_eq_some hp⟩]
      · rename_i hnone
        have ih := mapType_spec o abi named false (spelt ++ [name]) hinv hacyclic hnew
        exact ⟨ih.inv, ih.grows, fun st hst => .typedef (Or.inr hnone) (ih.stands st hst)⟩
  | .record head fields, canon, spelt, within, g, hinv, hacyclic, hnew => by
    have hwithin : head.usr ∉ within := hnew _ List.mem_cons_self
    rw [mapType]
    split
    · rename_i name hname
      refine ⟨hinv, Grows.refl g, fun st hst => ?_⟩
      cases hst
      exact .record (hinv.known hwithin hname)
    · rename_i hnone
      split
      · exact TypeMapped.error hinv
      · rename_i cName hcName
        dsimp only
        by_cases hname : recordSppName o cName ∈ g.records.map (·.name) ∨ recordSppName o cName ∈ g.inProgress
        · rw [if_pos hname]
          obtain ⟨hclash, hknown⟩ := hinv.clash hnone hname (recordSppName o cName :: g.clashes)
          refine ⟨hclash, ⟨List.subset_cons_self _ _, fun _ => id, rfl⟩, fun st hst => ?_⟩
          cases hst
          exact .record hknown
        · rw [if_neg hname]
          rw [not_or] at hname
          have henter := hinv.enter hnone hname.1
          by_cases hunion : head.isUnion
          · rw [if_pos hunion]
            refine TypeMapped.record hname.2 henter (Grows.refl _) fun hfalse => ?_
            rw [hunion] at hfalse
            cases hfalse
          · rw [if_neg hunion]
            have ih := mapFields_spec o abi fields henter hacyclic.2 fun usr husr hmem => by
              rcases List.mem_cons.1 hmem with rfl | hmem
              · exact hacyclic.1 husr
              · exact hnew usr (List.mem_cons_of_mem _ husr) hmem
            exact TypeMapped.record hname.2 ih.inv ih.grows fun _ => ih.stands

private theorem mapFields_spec [Unicode] (o : Options) (abi : Nat → Layout) :
    ∀ (fields : CFields) {within : List Nat} {g : GenState}, Inv abi within g → fields.Acyclic →
      (∀ usr ∈ fields.usrs, usr ∉ within) → FieldsMapped abi within g fields (mapFields o abi fields g)
  | .nil, _, g, hinv, _, _ => by
    rw [mapFields]
    refine ⟨hinv, Grows.refl g, fun sts hsts => ?_⟩
    cases hsts
    exact .nil
  | .cons f type rest, _, g, hinv, hacyclic, hnew => by
    rw [mapFields]
    by_cases hbitfield : f.isBitfield
    · rw [if_pos hbitfield]
      exact FieldsMapped.stop hinv (Grows.refl g)
    · rw [if_neg hbitfield]
      by_cases hanonymous : f.isAnonymous ∨ f.spelling = []
      · rw [if_pos hanonymous]
        exact FieldsMapped.stop hinv (Grows.refl g)
      · rw [if_neg hanonymous]
        have htype := mapType_spec o abi type false [] hinv hacyclic.1 fun usr husr =>
          hnew usr (List.mem_append_left _ husr)
        cases hmap : mapType o abi false [] type g with
        | mk r g' =>
          rw [hmap] at htype
          cases r with
          | error e => exact FieldsMapped.stop htype.inv htype.grows
          | ok st =>
            have hrest := mapFields_spec o abi rest htype.inv hacyclic.2 fun usr husr =>
              hnew usr (List.mem_append_right _ husr)
            refine ⟨hrest.inv, htype.grows.trans hrest.grows, fun sts hsts => ?_⟩
            obtain ⟨sts', hsts', rfl⟩ := mapM_cons_ok hsts
            exact .cons ((htype.stands st rfl).mono (Known.mono hrest.grows.names hrest.grows.records))
              (hrest.stands sts' hsts')

end

/-- After any types, the generator is within no record. -/
private theorem bindTypes_inv [Unicode] (o : Options) (abi : Nat → Layout) {ts : List CType}
    (hts : ∀ ct ∈ ts, ct.Acyclic) : Inv abi [] (bindTypes o abi ts) := by
  have hrun : ∀ g, Inv abi [] g → Inv abi [] (ts.foldl (fun g ct => (mapType o abi false [] ct g).2) g) := by
    induction ts with
    | nil => exact fun g hinv => hinv
    | cons ct ts ih =>
      intro g hinv
      have hct := hts ct List.mem_cons_self
      exact ih (fun ct' hct' => hts ct' (List.mem_cons_of_mem _ hct')) _
        (mapType_spec o abi ct false [] hinv hct fun _ _ => List.not_mem_nil).inv
  exact hrun .init (Inv.init abi)

end runs

/-! ### Classes and records -/

section classes

variable {names : List (Nat × Name)} {older records : List BoundClass} {c : BoundClass} {name : Name} {usr : Nat}

private theorem classLayout_eq (hright : AllRight t abi older) (hname : name ∈ older.map (·.name))
    (husr : ∀ c ∈ older, c.name = name → c.head.usr = usr) : classLayout t older name = some (abi usr) := by
  induction older with
  | nil => exact absurd hname List.not_mem_nil
  | cons c older ih =>
    rw [classLayout]
    by_cases hc : c.name = name
    · obtain ⟨⟨placed, hplaced, hlayout, -⟩, -⟩ := hright
      rw [if_pos hc, hplaced, Option.map_some, hlayout, husr c List.mem_cons_self hc]
    · rw [if_neg hc]
      refine ih hright.2 ?_ fun c' hc' => husr c' (List.mem_cons_of_mem _ hc')
      rcases List.mem_cons.1 hname with heq | hname
      · exact absurd heq.symm hc
      · exact hname

/-- A stand-in is as its record exactly if its integers are as aligned. -/
private theorem standIn_layout (t : Target) {l : Layout} (hpow : ∃ k, l.align = 2 ^ k) (hsize : l.align ∣ l.size) :
    (Layout.ofFields [.array (l.size / min l.align 8) (t.int (min l.align 8))]).2 = l ↔
      t.intAlign (min l.align 8) = l.align := by
  have hunit : min l.align 8 ∣ l.align := by
    obtain ⟨k, hk⟩ := hpow
    rw [hk]
    rcases Nat.le_total k 3 with hle | hle
    · have hsmall : 2 ^ k ≤ 8 := Nat.pow_le_pow_right (show 0 < 2 by decide) hle
      rw [Nat.min_eq_left hsmall]
    · have hlarge : 8 ≤ 2 ^ k := Nat.pow_le_pow_right (show 0 < 2 by decide) hle
      rw [Nat.min_eq_right hlarge]
      exact pow_dvd_pow 2 hle
  have hcount : l.size / min l.align 8 * min l.align 8 = l.size := Nat.div_mul_cancel (hunit.trans hsize)
  have harray : Layout.array (l.size / min l.align 8) (t.int (min l.align 8)) =
      ⟨l.size, t.intAlign (min l.align 8)⟩ := by
    rw [Layout.array, Target.int, hcount]
  rw [harray]
  constructor
  · intro h
    have halign : max (t.intAlign (min l.align 8)) 1 = l.align := congrArg Layout.align h
    have hpos := t.intAlign_pos (min l.align 8)
    omega
  · intro h
    rw [h, Layout.ofFields_singleton (h ▸ t.intAlign_pos _) hsize]

/-- A class that comes after classes as their records is as its record exactly if attributes change nothing. -/
private theorem classRight_iff (habi : AbiOk abi) (hright : AllRight t abi older)
    (hclash : ∀ u u' n, (u, n) ∈ names → (u', n) ∈ names → u = u') (hown : ∀ c ∈ older, (c.head.usr, c.name) ∈ names)
    (hentry : EntryOk abi names older c) : ClassRight t abi older c ↔ ClassNatural t abi c := by
  have hknown : ∀ u n, Known names older u n → classLayout t older n = some (abi u) := by
    rintro u n ⟨hmem, hclass | ⟨u', hne, hmem'⟩⟩
    · refine classLayout_eq hright hclass fun c' hc' hname => ?_
      exact hclash c'.head.usr u n (hname ▸ hown c' hc') hmem
    · exact absurd (hclash u' u n hmem' hmem) hne
  unfold ClassRight ClassNatural
  rcases hentry with ⟨fs, hbody, hstand⟩ | ⟨reason, hbody⟩
  · rw [hbody, ClsBody.layout, hstand.layouts hknown, Option.map_some]
    constructor
    · rintro ⟨placed, hplaced, hlayout, hoffsets⟩
      cases hplaced
      exact Prod.ext (hoffsets fs rfl) hlayout
    · intro h
      exact ⟨_, rfl, congrArg Prod.snd h, fun _ _ => congrArg Prod.fst h⟩
  · rw [hbody, ClsBody.layout]
    dsimp only
    rw [← standIn_layout t (habi.align _) (habi.size _)]
    constructor
    · rintro ⟨placed, hplaced, hlayout, -⟩
      cases hplaced
      exact hlayout
    · intro h
      exact ⟨_, rfl, h, fun _ hlisted => nomatch hlisted⟩

private theorem allRight_iff (habi : AbiOk abi) (hclash : ∀ u u' n, (u, n) ∈ names → (u', n) ∈ names → u = u')
    (hown : ∀ c ∈ records, (c.head.usr, c.name) ∈ names) (hentries : EntriesOk abi names records) :
    AllRight t abi records ↔ ∀ c ∈ records, ClassNatural t abi c := by
  induction records with
  | nil => exact iff_of_true trivial fun _ h => (List.not_mem_nil h).elim
  | cons c older ih =>
    have hown' : ∀ c ∈ older, (c.head.usr, c.name) ∈ names := fun c' hc' => hown c' (List.mem_cons_of_mem _ hc')
    have hrest := ih hown' hentries.2
    rw [List.forall_mem_cons, ← hrest]
    constructor
    · rintro ⟨hc, holder⟩
      exact ⟨(classRight_iff habi holder hclash hown' hentries.1).1 hc, holder⟩
    · rintro ⟨hc, holder⟩
      exact ⟨(classRight_iff habi holder hclash hown' hentries.1).2 hc, holder⟩

end classes

/-- Integers are as aligned as they are large, and pointers have eight bytes. -/
def lp64 : Target where
  intAlign n := max n 1
  intAlign_pos n := Nat.le_max_right n 1
  float := ⟨4, 4⟩
  double := ⟨8, 8⟩
  pointer := ⟨8, 8⟩
  sizeT := ⟨8, 8⟩

/-- `struct pair { char first; int second; }`, where the second is at `offset`. -/
def pair (offset : Nat) : CType :=
  .record ⟨1, "pair".toList, false⟩ (.cons ⟨"first".toList, false, false, 0⟩ .char
    (.cons ⟨"second".toList, false, false, offset⟩ (.int false 4) .nil))

/-- `union value { int number; char bytes[8]; }`. -/
def value : CType :=
  .record ⟨2, "value".toList, true⟩ (.cons ⟨"number".toList, false, false, 0⟩ (.int false 4)
    (.cons ⟨"bytes".toList, false, false, 0⟩ (.array .char 8) .nil))

/-- `struct outer { struct pair inner; int counts[3]; union value last; }`. -/
def outer : CType :=
  .record ⟨3, "outer".toList, false⟩ (.cons ⟨"inner".toList, false, false, 0⟩ (pair 4)
    (.cons ⟨"counts".toList, false, false, 8⟩ (.array (.int false 4) 3)
      (.cons ⟨"last".toList, false, false, 20⟩ value .nil)))

/-- The layouts of the three. -/
def outerAbi (usr : Nat) : Layout := if usr = 3 then ⟨28, 4⟩ else ⟨8, 4⟩

end Sppc.Bindings
