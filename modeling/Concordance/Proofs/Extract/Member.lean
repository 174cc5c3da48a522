import Concordance.Proofs.Extract.Distinct
import Concordance.Proofs.Extract.Owner
import Concordance.Proofs.Extract.Span

/-!
# Members of types

The members of a symbol are found by name once all symbols are there: those that name it as their
owner, each once (`Symbol.mem_members_withMembers`). Which declaration they mean is known before, when
their nodes are visited, and this declaration has become a symbol by then, since a walk comes to it
first (`Extract.exists_owner_before`). Hence links and owners agree (`Extract.members_sound`).
-/

namespace Concordance

/-! ### Members by name -/

namespace Symbol

variable {symbols : List Symbol} {s : Symbol}

/-- The members of an owner are the names of the symbols that name it as theirs. -/
theorem mem_memberNames {owner name : String} :
    name ∈ memberNames symbols owner ↔
      ∃ s ∈ symbols, s.namedOwner = some owner ∧ s.name = name := by
  simp [memberNames, and_assoc]

/-- A symbol keeps all but its members. -/
theorem exists_withMembers_eq (symbols : List Symbol) (s : Symbol) :
    ∃ members, withMembers symbols s = { s with members } := by
  unfold withMembers
  split
  · exact ⟨s.members, rfl⟩
  · split
    · exact ⟨_, rfl⟩
    · exact ⟨s.members, rfl⟩

@[simp]
theorem name_withMembers : (withMembers symbols s).name = s.name := by
  obtain ⟨members, h⟩ := exists_withMembers_eq symbols s
  rw [h]

@[simp]
theorem kind_withMembers : (withMembers symbols s).kind = s.kind := by
  obtain ⟨members, h⟩ := exists_withMembers_eq symbols s
  rw [h]

@[simp]
theorem span_withMembers : (withMembers symbols s).span = s.span := by
  obtain ⟨members, h⟩ := exists_withMembers_eq symbols s
  rw [h]

@[simp]
theorem namedOwner_withMembers : (withMembers symbols s).namedOwner = s.namedOwner := by
  obtain ⟨members, h⟩ := exists_withMembers_eq symbols s
  rw [h]
  rfl

/-- **The members of a symbol.** A symbol that had none lists once each symbol that names it as its
owner, if it is class-like, and else none. -/
theorem mem_members_withMembers (hs : s.members = []) {name : String} :
    name ∈ (withMembers symbols s).members ↔
      s.kind.isClassLike = true ∧ ∃ m ∈ symbols, m.namedOwner = some s.name ∧ m.name = name := by
  rw [← mem_memberNames]
  unfold withMembers
  split
  · next hnone => simp [hs, hnone]
  · next names hnames =>
    split
    · next hlike => simp [hlike, mem_distinct]
    · next hunlike => simp [hs, hunlike]

/-- No member is listed twice. -/
theorem nodup_members_withMembers (hs : s.members = []) :
    (withMembers symbols s).members.Nodup := by
  unfold withMembers
  split
  · rw [hs]
    exact List.nodup_nil
  · split
    · exact nodup_distinct _
    · rw [hs]
      exact List.nodup_nil

end Symbol

namespace Extract

/-! ### Symbols with their nodes -/

variable {ctx : Context} {n : Node} {s : Symbol}

/-- The symbols of a tree with their members, each with the node that declares it. -/
def declaredBy (ctx : Context) (t : Tree) : Except Fault (List (Node × Symbol)) := do
  let declared := (← (Node.root t).walk.mapM fun n =>
    (declarations ctx n).map (List.map (n, ·))).flatten
  return declared.map fun d => (d.1, d.2.withMembers (declared.map Prod.snd))

section Attempts

variable {ε α β : Type} {f : α → Except ε (List β)} {xs : List α} {zss : List (List (α × β))}

/-- Results that are given with what they were an attempt at are the same results. -/
theorem exists_mapM_pairs {yss : List (List β)} (h : xs.mapM f = .ok yss) :
    ∃ zss, (xs.mapM fun x => (f x).map (List.map (x, ·))) = .ok zss ∧
      zss.flatten.map Prod.snd = yss.flatten := by
  induction xs generalizing yss with
  | nil =>
      cases h
      exact ⟨[], rfl, rfl⟩
  | cons x xs ih =>
      rw [List.mapM_cons] at h
      obtain ⟨ys, hys, h⟩ := Attempt.exists_of_bind_eq_ok h
      obtain ⟨rest, hrest, h⟩ := Attempt.exists_of_bind_eq_ok h
      cases h
      obtain ⟨zss, hzss, heq⟩ := ih hrest
      refine ⟨ys.map (x, ·) :: zss, ?_, ?_⟩
      · rw [List.mapM_cons, hys, hzss]
        rfl
      · rw [List.flatten_cons, List.flatten_cons, List.map_append, heq, List.map_map]
        simp [Function.comp_def]

/-- A result comes from one of the attempts, and all results of earlier attempts come before it. -/
theorem exists_split_of_mapM (h : (xs.mapM fun x => (f x).map (List.map (x, ·))) = .ok zss)
    {before after : List (α × β)} {x : α} {y : β} (hsplit : zss.flatten = before ++ (x, y) :: after) :
    ∃ first rest ys, xs = first ++ x :: rest ∧ f x = .ok ys ∧ y ∈ ys ∧
      ∀ a ∈ first, ∃ bs, f a = .ok bs ∧ ∀ b ∈ bs, (a, b) ∈ before := by
  induction xs generalizing zss before with
  | nil =>
      cases h
      simp at hsplit
  | cons z xs ih =>
      rw [List.mapM_cons] at h
      obtain ⟨pairs, hpairs, h⟩ := Attempt.exists_of_bind_eq_ok h
      obtain ⟨rest, hrest, h⟩ := Attempt.exists_of_bind_eq_ok h
      cases h
      obtain ⟨bs, hbs, hmap⟩ : ∃ bs, f z = .ok bs ∧ bs.map (z, ·) = pairs := by
        cases hz : f z with
        | error e => rw [hz] at hpairs; cases hpairs
        | ok bs =>
            rw [hz] at hpairs
            cases hpairs
            exact ⟨bs, rfl, rfl⟩
      -- the pair is among those of the first attempt, or all of these stand before it
      by_cases hlate : ∃ middle, before = pairs ++ middle
      · obtain ⟨middle, rfl⟩ := hlate
        rw [List.flatten_cons, List.append_assoc] at hsplit
        obtain ⟨first, later, ys, rfl, hys, hy, hfirst⟩ :=
          ih hrest (List.append_cancel_left hsplit)
        refine ⟨z :: first, later, ys, rfl, hys, hy, List.forall_mem_cons.mpr ⟨?_, ?_⟩⟩
        · refine ⟨bs, hbs, fun b hb => List.mem_append_left _ ?_⟩
          rw [← hmap]
          exact List.mem_map_of_mem hb
        · intro a ha
          obtain ⟨cs, hcs, hmem⟩ := hfirst a ha
          exact ⟨cs, hcs, fun b hb => List.mem_append_right _ (hmem b hb)⟩
      · rw [List.flatten_cons] at hsplit
        rcases List.append_eq_append_iff.mp hsplit with ⟨middle, hbefore, -⟩ | ⟨middle, hpair, htail⟩
        · exact absurd ⟨middle, hbefore⟩ hlate
        · cases middle with
          | nil => exact absurd ⟨[], by simpa using hpair.symm⟩ hlate
          | cons w middle =>
              cases htail
              have hmem : (x, y) ∈ bs.map (z, ·) := by
                rw [hmap, hpair]
                exact List.mem_append_right _ List.mem_cons_self
              obtain ⟨b, hb, heq⟩ := List.mem_map.mp hmem
              cases heq
              exact ⟨[], xs, bs, rfl, hbs, hb, fun a ha => by cases ha⟩

end Attempts

variable {t : Tree} {e : Extraction}

/-- The symbols with their nodes are the symbols that are extracted. -/
theorem exists_declaredBy (h : extract ctx t = .ok e) :
    ∃ declared, ((Node.root t).walk.mapM fun n => (declarations ctx n).map (List.map (n, ·))) =
        .ok declared ∧
      declaredBy ctx t = .ok (declared.flatten.map fun d =>
        (d.1, d.2.withMembers (declared.flatten.map Prod.snd))) ∧
      e.symbols = Symbol.linkMembers (declared.flatten.map Prod.snd) := by
  unfold extract at h
  obtain ⟨symbols, hsymbols, h⟩ := Attempt.exists_of_bind_eq_ok h
  cases h
  unfold Extract.symbols at hsymbols
  obtain ⟨listed, hlisted, hsymbols⟩ := Attempt.exists_of_bind_eq_ok hsymbols
  cases hsymbols
  obtain ⟨declared, hdeclared, heq⟩ := exists_mapM_pairs hlisted
  refine ⟨declared, hdeclared, ?_, by rw [heq]⟩
  unfold declaredBy
  rw [hdeclared]
  rfl

/-- Linked to their members, the symbols stay with their nodes. -/
theorem map_snd_linked (pairs : List (Node × Symbol)) :
    (pairs.map fun d => (d.1, d.2.withMembers (pairs.map Prod.snd))).map Prod.snd =
      Symbol.linkMembers (pairs.map Prod.snd) := by
  rw [Symbol.linkMembers, List.map_map, List.map_map]
  rfl

/-- A name that is given as that of an owner is not empty. -/
theorem ne_empty_of_namedOwner {p : String} (h : s.namedOwner = some p) :
    s.owner = some p ∧ p ≠ "" := by
  obtain ⟨owner, howner, h⟩ := Option.bind_eq_some_iff.mp h
  split at h
  · cases h
  · next hempty =>
    cases h
    refine ⟨howner, ?_⟩
    rintro rfl
    exact hempty rfl

section Declared

variable {declared : List (List (Node × Symbol))}

/-- Every symbol is attributed to the owner of its node. -/
theorem attributed_of_mem_declared (hfamily : ctx.family.holdsMembers = true)
    (hdeclared : ((Node.root t).walk.mapM fun n => (declarations ctx n).map (List.map (n, ·))) =
      .ok declared) (hs : (n, s) ∈ declared.flatten) : Attributed ctx ctx.family n s := by
  obtain ⟨before, after, hsplit⟩ := List.append_of_mem hs
  obtain ⟨-, -, symbols, -, hsymbols, hmem, -⟩ := exists_split_of_mapM hdeclared hsplit
  exact attributed_of_mem_declarations hfamily hsymbols hmem

/-- **The symbol of the owner comes before the member.** -/
theorem exists_owner_before (hfamily : ctx.family.holdsMembers = true) (hinside : t.Inside)
    (hdeclared : ((Node.root t).walk.mapM fun n => (declarations ctx n).map (List.map (n, ·))) =
      .ok declared) {before after : List (Node × Symbol)}
    (hsplit : declared.flatten = before ++ (n, s) :: after) {p : String}
    (hp : s.namedOwner = some p) :
    ∃ o, owner? ctx.family n = some o ∧ ownerName ctx (some o) = some p ∧
      (hasOwnName o = true → o.kind ≠ "delegate_declaration" →
        ∃ d ∈ before, d.2.name = p ∧ d.2.kind.isClassLike = true ∧
          d.2.span.contains s.span = true) := by
  obtain ⟨howner, hne⟩ := ne_empty_of_namedOwner hp
  obtain ⟨first, rest, symbols, hwalk, hsymbols, hs, hbefore⟩ :=
    exists_split_of_mapM hdeclared hsplit
  have hn : Node.Of t n := Node.of_mem_walk (hwalk ▸ by simp)
  rcases (attributed_of_mem_declarations hfamily hsymbols hs).owner with hnone | ⟨hname, hspan⟩
  · rw [hnone] at howner
    cases howner
  · rw [howner] at hname
    cases ho : owner? ctx.family n with
    | none =>
        rw [ho] at hname
        cases hname
    | some o =>
        rw [ho] at hname
        refine ⟨o, rfl, hname.symm, fun hnamed hdelegate => ?_⟩
        obtain ⟨a, habove, rfl, hkind⟩ := exists_owner ho
        obtain ⟨types, htypes, hmem⟩ := hbefore a (habove.mem_before hwalk)
        obtain ⟨c, hc, htype⟩ := exists_type hkind hnamed hdelegate hname.symm hne htypes
        refine ⟨(a, c), hmem c hc, htype.called, htype.classLike, ?_⟩
        rw [htype.span, hspan]
        exact contains_wholeOf hinside hn habove hkind

end Declared

/-- **Members are linked to their owners.** Let every child of a tree lie inside its parent, in a
family whose types hold their members. Whatever symbol has an owner by name, the owner is the
declaration that its node is a member of. If this has a name of its own and is no delegate, a symbol
that comes before is called so, is class-like, spans the member and lists it. And every symbol lists,
each once, only names of symbols that name it as their owner, and is class-like if it lists any. -/
theorem members_sound (hfamily : ctx.family.holdsMembers = true) (hinside : t.Inside)
    (h : extract ctx t = .ok e) :
    (∃ declared, declaredBy ctx t = .ok declared ∧ declared.map Prod.snd = e.symbols ∧
      ∀ before n s after, declared = before ++ (n, s) :: after → ∀ p, s.namedOwner = some p →
        ∃ o, owner? ctx.family n = some o ∧ ownerName ctx (some o) = some p ∧
          (hasOwnName o = true → o.kind ≠ "delegate_declaration" →
            ∃ c ∈ before.map Prod.snd, c.name = p ∧ c.kind.isClassLike = true ∧
              c.span.contains s.span = true ∧ s.name ∈ c.members)) ∧
      ∀ c ∈ e.symbols, c.members.Nodup ∧ ∀ name ∈ c.members, c.kind.isClassLike = true ∧
        ∃ s ∈ e.symbols, s.namedOwner = some c.name ∧ s.name = name := by
  obtain ⟨declared, hdeclared, hby, hsymbols⟩ := exists_declaredBy h
  have hattributed {n : Node} {s : Symbol} (hs : (n, s) ∈ declared.flatten) :=
    attributed_of_mem_declared hfamily hdeclared hs
  constructor
  · refine ⟨_, hby, ?_, ?_⟩
    · rw [hsymbols, map_snd_linked]
    · intro before n s after hsplit p hp
      obtain ⟨earlier, tail, hpairs, rfl, htail⟩ := List.map_eq_append_iff.mp hsplit
      obtain ⟨⟨n', s'⟩, later, rfl, heq, -⟩ := List.map_eq_cons_iff.mp htail
      cases heq
      rw [Symbol.namedOwner_withMembers] at hp
      have hmem : s' ∈ declared.flatten.map Prod.snd := by
        rw [hpairs]
        simp
      obtain ⟨o, ho, hname, hbefore⟩ := exists_owner_before hfamily hinside hdeclared hpairs hp
      refine ⟨o, ho, hname, fun hnamed hdelegate => ?_⟩
      obtain ⟨⟨a, c⟩, hc, hcalled, hlike, hspan⟩ := hbefore hnamed hdelegate
      have hnone : c.members = [] :=
        (hattributed (hpairs ▸ List.mem_append_left _ hc)).members
      refine ⟨_, List.mem_map_of_mem (List.mem_map_of_mem hc), ?_, ?_, ?_, ?_⟩
      · rw [Symbol.name_withMembers, hcalled]
      · rw [Symbol.kind_withMembers, hlike]
      · rw [Symbol.span_withMembers, Symbol.span_withMembers, hspan]
      · rw [Symbol.name_withMembers, Symbol.mem_members_withMembers hnone]
        exact ⟨hlike, s', hmem, hp.trans (congrArg some hcalled.symm), rfl⟩
  · intro c hc
    rw [hsymbols] at hc ⊢
    obtain ⟨c, hc', rfl⟩ := List.mem_map.mp hc
    obtain ⟨⟨n, s⟩, hd, rfl⟩ := List.mem_map.mp hc'
    have hnone := (hattributed hd).members
    refine ⟨Symbol.nodup_members_withMembers hnone, fun name hname => ?_⟩
    obtain ⟨hlike, m, hm, howner, hcalled⟩ := (Symbol.mem_members_withMembers hnone).mp hname
    rw [Symbol.kind_withMembers, Symbol.name_withMembers]
    exact ⟨hlike, _, List.mem_map_of_mem hm, Symbol.namedOwner_withMembers.trans howner,
      Symbol.name_withMembers.trans hcalled⟩

section Decorated

/-- The source of a class with a method, both of them decorated. -/
def memberSource : Bytes := Utf8.bytes "@d\nclass A:\n @p\n def f(): 0\n"

/-- The tree of the class. -/
def memberTree : Tree :=
  spanned "module" 0 28 none
    [spanned "decorated_definition" 0 27 none
      [spanned "decorator" 0 2 none [spanned "identifier" 1 2 none []],
       spanned "class_definition" 3 27 (some "definition")
        [spanned "identifier" 9 10 (some "name") [],
         spanned "block" 13 27 (some "body")
          [spanned "decorated_definition" 13 27 none
            [spanned "decorator" 13 15 none [spanned "identifier" 14 15 none []],
             spanned "function_definition" 17 27 (some "definition")
              [spanned "identifier" 21 22 (some "name") [],
               spanned "parameters" 22 24 (some "parameters") [],
               spanned "block" 26 27 (some "body") []]]]]]]

/-- What is known of the class. -/
def memberContext : Context where
  source := memberSource
  file := "m.py"
  language := "python"
  family := .python

/-- What is read off the class. -/
def memberExtraction : Extraction := (extract memberContext memberTree).toOption.getD {}

/-- The class comes before its method, with its decorator it spans the method with its own, and it
lists the method. -/
theorem members_sound_decorated :
    memberTree.Inside ∧ extract memberContext memberTree = .ok memberExtraction ∧
      ∃ before n s after, declaredBy memberContext memberTree = .ok (before ++ (n, s) :: after) ∧
        s.name = "f" ∧ ∃ c ∈ before.map Prod.snd, c.name = "A" ∧ c.kind.isClassLike = true ∧
          c.span.contains s.span = true ∧ s.name ∈ c.members := by
  have hinside : memberTree.Inside := by decide +kernel
  have hextract : extract memberContext memberTree = .ok memberExtraction := by decide +kernel
  obtain ⟨⟨declared, hby, -, hlinked⟩, -⟩ := members_sound rfl hinside hextract
  have hfacts : (declaredBy memberContext memberTree).toOption.map (List.map fun d =>
      (d.2.name, d.2.namedOwner, (owner? .python d.1).map fun o => (o.kind, hasOwnName o))) =
      some [("A", none, none), ("f", some "A", some ("class_definition", true))] := by
    decide +kernel
  rw [hby] at hfacts
  obtain ⟨a, rest, rfl, -, hrest⟩ := List.map_eq_cons_iff.mp (Option.some.inj hfacts)
  obtain ⟨⟨n, s⟩, tail, rfl, hmethod, -⟩ := List.map_eq_cons_iff.mp hrest
  obtain ⟨hname, hfact⟩ := Prod.mk.inj hmethod
  obtain ⟨howner, hclass⟩ := Prod.mk.inj hfact
  obtain ⟨o, ho, -, hbefore⟩ := hlinked [a] n s tail rfl "A" howner
  obtain ⟨o', ho', hkind⟩ := Option.map_eq_some_iff.mp hclass
  cases ho'.symm.trans ho
  obtain ⟨hkind, hnamed⟩ := Prod.mk.inj hkind
  exact ⟨hinside, hextract, [a], n, s, tail, hby, hname,
    hbefore hnamed (by rw [hkind]; decide)⟩

end Decorated

end Extract

end Concordance
