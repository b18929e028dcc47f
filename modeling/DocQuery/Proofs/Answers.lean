import DocQuery.Proofs.Filing

/-!
# What a catalog answers

A catalog that mirrors some documents refers to those of them that match the
filter, except the ones it *misses*: if existence drives the walk, documents
whose attribute exists but has no key.  A limit cuts the distinct documents
off, and never one of the first.

* `ask_cases` — everything an answer can be: the first accepted pairs of a
  walk through the field of the most preferred drive;
* `reached_iff` — a matching document is on the walk unless it is missed;
* `distinct_perm`, `eraseDups_refer` — the distinct documents of an answer,
  without and with a limit.
-/

namespace DocQuery

/-! ## Lists without repetitions -/

section EraseDups

variable {α : Type} [BEq α] [LawfulBEq α]

/-- What is left of a list without repetitions has none. -/
theorem nodup_eraseDups (l : List α) : l.eraseDups.Nodup := by
  have hfilter : ∀ (l : List α) (p : α → Bool), (l.filter p).eraseDups.Nodup := by
    intro l
    induction l with
    | nil => simp
    | cons a rest ih =>
        intro p
        cases hp : p a with
        | false => simpa [List.filter_cons, hp] using ih p
        | true =>
            rw [List.filter_cons_of_pos hp, List.eraseDups_cons, List.filter_filter]
            refine List.nodup_cons.mpr ⟨?_, ih _⟩
            simp [List.mem_eraseDups]
  simpa using hfilter l fun _ => true

/-- A list without repetitions stays as it is. -/
theorem eraseDups_of_nodup {l : List α} (h : l.Nodup) : l.eraseDups = l := by
  induction l with
  | nil => rfl
  | cons a rest ih =>
      obtain ⟨ha, hrest⟩ := List.nodup_cons.mp h
      have hkept : (rest.filter fun b => !b == a) = rest := by
        apply List.filter_eq_self.mpr
        intro b hb
        have hne : b ≠ a := fun heq => ha (heq ▸ hb)
        simp [hne]
      rw [List.eraseDups_cons, hkept, ih hrest]

end EraseDups

namespace Drive

/-- The most preferred drive is one of those to choose from. -/
theorem best?_mem {drives : List Drive} {d : Drive} (h : best? drives = some d) : d ∈ drives := by
  have hfold : ∀ (rest : List Drive) (d : Drive),
      rest.foldl (fun best e => if e.isBetter best then e else best) d ∈ d :: rest := by
    intro rest
    induction rest with
    | nil => simp
    | cons e rest ih =>
        intro d
        rw [List.foldl_cons]
        rcases List.mem_cons.mp (ih (if e.isBetter d then e else d)) with hmem | hmem
        · rw [hmem]
          split <;> simp
        · simp [hmem]
  cases drives with
  | nil => simp [best?] at h
  | cons first rest =>
      simp only [best?, Option.some.injEq] at h
      exact h ▸ hfold rest first

end Drive

namespace Driver

/-- Only what is defined meets an operation that drives a walk. -/
theorem exists_of_accepts {operation : Operation} {d : Driver} {found : Option Json}
    (hd : ofOperation? operation = some d) (h : operation.accepts found = true) :
    ∃ value, found = some value := by
  cases found with
  | some value => exact ⟨value, rfl⟩
  | none =>
      cases operation with
      | defined required => cases required <;> simp_all [ofOperation?, Operation.accepts]
      | ne | among => simp [ofOperation?] at hd
      | eq | gt | gte | lt | lte => simp [Operation.accepts] at h

end Driver

namespace Catalog

/-! ## Walks cut off -/

section Refer

variable (accepts : String → Bool)

/-- Without a limit all accepted pairs are referred to. -/
theorem refer_unlimited (pairs : List (IndexKey × String)) (named : List String) :
    refer accepts none pairs named = pairs.filter fun e => accepts e.2 := by
  induction pairs generalizing named with
  | nil => rfl
  | cons e rest ih =>
      simp only [refer, Option.any_none, Bool.and_false, Bool.false_eq_true, if_false, ih,
        List.filter_cons]

/-- The pairs referred to are the first accepted ones. -/
theorem refer_prefix (limit : Option Nat) (pairs : List (IndexKey × String))
    (named : List String) :
    refer accepts limit pairs named <+: pairs.filter fun e => accepts e.2 := by
  induction pairs generalizing named with
  | nil => exact List.prefix_refl _
  | cons e rest ih =>
      simp only [refer]
      split
      · exact List.nil_prefix
      · split
        · next haccepts =>
            rw [List.filter_cons_of_pos (by exact haccepts)]
            exact List.cons_prefix_cons.mpr ⟨rfl, ih _⟩
        · next hrejects =>
            rw [List.filter_cons_of_neg (by exact hrejects)]
            exact ih _

/-- **A limit counts documents.**  Of the distinct documents of a walk those
are referred to that the limit still leaves room for; repetitions of documents
that are named already take no room. -/
theorem eraseDups_refer (limit : Nat) (pairs : List (IndexKey × String)) (named : List String) :
    (((refer accepts (some limit) pairs named).map Prod.snd).filter
        (!named.contains ·)).eraseDups =
      ((((pairs.filter fun e => accepts e.2).map Prod.snd).filter
        (!named.contains ·)).eraseDups).take (limit - named.length) := by
  induction pairs generalizing named with
  | nil => simp [refer]
  | cons e rest ih =>
      obtain ⟨key, id⟩ := e
      by_cases hcut : (!named.contains id && decide (limit ≤ named.length)) = true
      · have hfull : limit ≤ named.length := by simpa using (Bool.and_eq_true_iff.mp hcut).2
        have hnone : refer accepts (some limit) ((key, id) :: rest) named = [] := if_pos hcut
        rw [hnone, Nat.sub_eq_zero_of_le hfull, List.take_zero]
        rfl
      · have hstep : refer accepts (some limit) ((key, id) :: rest) named =
            if accepts id then
              (key, id) :: refer accepts (some limit) rest
                (if named.contains id then named else id :: named)
            else refer accepts (some limit) rest named := if_neg hcut
        rw [hstep, List.filter_cons]
        cases haccepts : accepts id with
        | false => simpa only [Bool.false_eq_true, if_false] using ih named
        | true =>
            simp only [if_true, List.map_cons, List.filter_cons]
            cases hnamed : named.contains id with
            | true => simpa only [Bool.not_true, Bool.false_eq_true, if_false, if_true] using ih named
            | false =>
                have hroom : limit - named.length = limit - (id :: named).length + 1 := by
                  simp only [hnamed, Bool.not_false, Bool.true_and, decide_eq_true_eq] at hcut
                  rw [List.length_cons]
                  omega
                have hfresh : ∀ ids : List String, ids.filter (!(id :: named).contains ·) =
                    (ids.filter (!named.contains ·)).filter (!· == id) := by
                  intro ids
                  simp only [List.filter_filter, List.contains_cons, Bool.not_or]
                have hih := ih (id :: named)
                rw [hfresh, hfresh] at hih
                simp only [Bool.not_false, Bool.false_eq_true, if_false, if_true,
                  List.eraseDups_cons, hih, hroom, List.take_succ_cons]

end Refer

/-! ## What is on a walk -/

/-- Whether a walk for a request misses a document: existence drives it, and
the document has no key in the field. -/
def misses (c : Catalog) (r : Request) (document : Document) : Bool :=
  (Drive.best? (c.drives r)).any fun d =>
    d.driver == .every && (keysIn d.field document).isEmpty

/-- A drive comes from a predicate of the request, on a field of the catalog
and, if an order is asked for, on the field of the order. -/
theorem mem_drives {c : Catalog} {r : Request} {d : Drive} (h : d ∈ c.drives r) :
    c.fields.contains d.field = true ∧ (∀ field, r.orderBy = some field → d.field = field) ∧
      ∃ p ∈ r.filter.predicates, p.field = d.field ∧
        Driver.ofOperation? p.operation = some d.driver := by
  obtain ⟨p, hp, hdrive⟩ := List.mem_filterMap.mp h
  split at hdrive
  · next hfield =>
      obtain ⟨driver, hdriver, rfl⟩ := Option.map_eq_some_iff.mp hdrive
      obtain ⟨hcontains, horder⟩ := Bool.and_eq_true_iff.mp hfield
      have hordered : ∀ field, r.orderBy = some field → p.field = field := by
        intro field hfield
        rw [hfield, Option.all_some, Bool.and_eq_true_iff, beq_iff_eq] at horder
        exact horder.1
      exact ⟨hcontains, hordered, p, hp, rfl, hdriver⟩
  · simp at hdrive

/-- The pairs that a drive refers to when no limit is set. -/
def accepted (c : Catalog) (d : Drive) (postings : Postings) (r : Request) :
    List (IndexKey × String) :=
  (postings.walk d.driver.lower d.driver.upper r.reverse).filter fun e =>
    c.filedMatches r.filter e.2

/-- Everything an answer can be: the first accepted pairs of the walk of the
most preferred drive, cut off by the limit. -/
theorem ask_cases {c : Catalog} {r : Request} {answer : Answer} (h : c.ask r = some answer) :
    ∃ d postings pairs, Drive.best? (c.drives r) = some d ∧
      c.fields.get? d.field = some postings ∧
      answer = ⟨pairs.map fun e => .ok ⟨[d.field, e.1.encode, e.2]⟩, r.limit.isSome⟩ ∧
      pairs <+: c.accepted d postings r ∧
      (pairs.map Prod.snd).eraseDups =
        takeUpTo r.limit ((c.accepted d postings r).map Prod.snd).eraseDups := by
  obtain ⟨d, hd, rfl⟩ := Option.map_eq_some_iff.mp h
  obtain ⟨hcontains, _, _⟩ := mem_drives (Drive.best?_mem hd)
  obtain ⟨postings, hpostings⟩ := Option.isSome_iff_exists.mp hcontains
  refine ⟨d, postings, c.referred d r, hd, hpostings, rfl, ?_, ?_⟩
  · simp only [referred, hpostings]
    exact refer_prefix _ r.limit _ []
  · simp only [referred, hpostings]
    cases r.limit with
    | none => rw [refer_unlimited, takeUpTo, accepted]
    | some n =>
        have hcount := eraseDups_refer (c.filedMatches r.filter) n
          (postings.walk d.driver.lower d.driver.upper r.reverse) []
        simpa [takeUpTo, accepted] using hcount

section Mirror

variable {c : Catalog} {filed : List (String × Document)} {r : Request} {d : Drive}
  {postings : Postings}

/-- The pairs referred to are the keys of matching documents that the walk visits. -/
theorem mem_accepted (hc : c.Mirrors filed) (hpostings : c.fields.get? d.field = some postings)
    {key : IndexKey} {id : String} :
    (key, id) ∈ c.accepted d postings r ↔
      ∃ document, (id, document) ∈ filed ∧ r.filter.accepts document = true ∧
        key ∈ keysIn d.field document ∧ d.driver.visits key = true := by
  rw [accepted, List.mem_filter, Postings.mem_walk, hc.posted d.field postings hpostings]
  constructor
  · intro hpair
    obtain ⟨⟨hvisits, document, hmem, hkey⟩, hmatches⟩ := hpair
    rw [filedMatches, (hc.bodies id document).mpr hmem] at hmatches
    exact ⟨document, hmem, hmatches, hkey, hvisits⟩
  · intro hdocument
    obtain ⟨document, hmem, haccepts, hkey, hvisits⟩ := hdocument
    have hmatches : c.filedMatches r.filter id = true := by
      rw [filedMatches, (hc.bodies id document).mpr hmem]
      exact haccepts
    exact ⟨⟨hvisits, document, hmem, hkey⟩, hmatches⟩

/-- A document that matches has a key on the walk unless it is missed. -/
theorem reached_iff (hd : Drive.best? (c.drives r) = some d) {document : Document}
    (haccepts : r.filter.accepts document = true) :
    (∃ key ∈ keysIn d.field document, d.driver.visits key = true) ↔
      c.misses r document = false := by
  obtain ⟨_, _, p, hp, hfield, hdriver⟩ := mem_drives (Drive.best?_mem hd)
  have hholds : p.operation.accepts (document.valueAt p.field) = true :=
    List.all_eq_true.mp haccepts p hp
  obtain ⟨value, hvalue⟩ := Driver.exists_of_accepts hdriver hholds
  have hkeys : keysIn d.field document = IndexKey.keysOf value := by
    rw [keysIn, ← hfield, hvalue]
  rw [hkeys, misses, hd, Option.any_some, hkeys]
  constructor
  · intro hkeyed
    obtain ⟨key, hkey, _⟩ := hkeyed
    have hnonempty : (IndexKey.keysOf value).isEmpty = false :=
      List.isEmpty_eq_false_iff.mpr (List.ne_nil_of_mem hkey)
    simp [hnonempty]
  · intro hreached
    have hkeyed : d.driver = .every → IndexKey.keysOf value ≠ [] := by
      intro hevery hnone
      simp [hevery, hnone] at hreached
    exact Driver.exists_key hdriver (hvalue ▸ hholds) hkeyed

/-- **The distinct documents of a walk** are those that match and are not missed. -/
theorem distinct_perm (hc : c.Mirrors filed) (hnodup : (filed.map Prod.fst).Nodup)
    (hd : Drive.best? (c.drives r) = some d)
    (hpostings : c.fields.get? d.field = some postings) :
    (((c.accepted d postings r).map Prod.snd).eraseDups).Perm
      ((filed.filter fun e => r.filter.accepts e.2 && !c.misses r e.2).map Prod.fst) := by
  have hnodup' : ((filed.filter fun e =>
      r.filter.accepts e.2 && !c.misses r e.2).map Prod.fst).Nodup :=
    hnodup.sublist (List.filter_sublist.map Prod.fst)
  apply (List.perm_ext_iff_of_nodup (nodup_eraseDups _) hnodup').mpr
  intro id
  rw [List.mem_eraseDups, List.mem_map, List.mem_map]
  constructor
  · intro hnamed
    obtain ⟨⟨key, _⟩, hpair, rfl⟩ := hnamed
    obtain ⟨document, hmem, haccepts, hkey, hvisits⟩ := (mem_accepted hc hpostings).mp hpair
    have hreached := (reached_iff hd haccepts).mp ⟨key, hkey, hvisits⟩
    exact ⟨_, List.mem_filter.mpr ⟨hmem, by simp [haccepts, hreached]⟩, rfl⟩
  · intro hreached
    obtain ⟨⟨id, document⟩, hmem, rfl⟩ := hreached
    obtain ⟨hmem, hmatches⟩ := List.mem_filter.mp hmem
    simp only [Bool.and_eq_true, Bool.not_eq_true'] at hmatches
    obtain ⟨haccepts, hkept⟩ := hmatches
    obtain ⟨key, hkey, hvisits⟩ := (reached_iff hd haccepts).mpr hkept
    have hpair : (key, id) ∈ c.accepted d postings r :=
      (mem_accepted hc hpostings).mpr ⟨document, hmem, haccepts, hkey, hvisits⟩
    exact ⟨(key, id), hpair, rfl⟩

end Mirror

end Catalog

end DocQuery
