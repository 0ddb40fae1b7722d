import Mathlib.Data.List.Forall2
import TypeLedger.Proofs.Layers.Refusal
import TypeLedger.Proofs.Layers.Shown
import TypeLedger.Proofs.Printing.Unresolved
import TypeLedger.Proofs.Registration.Names

/-!
# Names in a tree of environments

Environments that extend one another make up their names from one naming, and share the layers below
them.

* `Environment.plant`: a tree of environments, from the entries of each.
* `Layer.Numbered`: each serial number stands in one record of a layer. `Layer.Numbered.accept` is
  the step of one entry, `numbered_add` the run over a list of them.
* `Environment.Grown`: what holds of a tree and of the naming behind it. `Grown.push` is the step of
  one environment more, `grown_grow` the run.
* `Environment.tree_names_spec`: behind any requests to the environments of a tree, names stay, no
  two aggregates without a tag have the same one, and none is a tag of an entry; the names that
  answers show are these.
-/

namespace TypeLedger

/-! ## 1. Serial numbers of a layer -/

namespace Entry

variable {e : Entry} {tag t : Tag}

/-- The aggregate that an entry states is called as it was told. -/
theorem tag_of_readRecord {r : TypeRecord} {edges : List BaseEdge}
    (h : e.readRecord tag = .ok (r, edges)) (ht : r.body.tag? = some t) : t = tag := by
  obtain ⟨-, -, complete, hbody⟩ := readAs_of_readRecord h
  generalize r.body = body at hbody ht
  revert ht
  cases hbody with
  | aggregate | enumeration => exact fun ht => (Option.some.inj ht).symm
  | _ => exact nofun

end Entry

namespace Layer

variable {l : Layer} {lo hi : Nat}

/-- The record of the identifier is an aggregate without a tag, and has that serial number. -/
def HasSerial (l : Layer) (i : TypeId) (s : Nat) : Prop :=
  (l.records.lookup i).bind (fun r => r.body.tag?) = some (.anonymous s)

/-- The serial numbers in a layer are at least `lo` and less than `hi`, and each stands in one
record. -/
structure Numbered (lo hi : Nat) (l : Layer) : Prop where
  lower : ∀ i s, l.HasSerial i s → lo ≤ s
  upper : ∀ i s, l.HasSerial i s → s < hi
  injective : ∀ i j s, l.HasSerial i s → l.HasSerial j s → i = j

theorem numbered_of_none (h : ∀ i s, ¬ l.HasSerial i s) (lo hi : Nat) : l.Numbered lo hi :=
  ⟨fun i s hs => absurd hs (h i s), fun i s hs => absurd hs (h i s),
    fun i _ s hs => absurd hs (h i s)⟩

theorem not_hasSerial_empty (i : TypeId) (s : Nat) : ¬ HasSerial {} i s := nofun

theorem not_hasSerial_fundamental (i : TypeId) (s : Nat) : ¬ fundamental.HasSerial i s := by
  intro h
  obtain ⟨r, hr, ht⟩ := Option.bind_eq_some_iff.1 h
  obtain ⟨p, -, hp⟩ := List.mem_map.1 (Keyed.mem_of_lookup hr)
  cases hp
  cases ht

theorem Numbered.mono (h : l.Numbered lo hi) {lo' hi' : Nat} (hlo : lo' ≤ lo) (hhi : hi ≤ hi') :
    l.Numbered lo' hi' :=
  ⟨fun i s hs => Nat.le_trans hlo (h.lower i s hs),
    fun i s hs => Nat.lt_of_lt_of_le (h.upper i s hs) hhi, h.injective⟩

theorem hasSerial_accept {r : TypeRecord} {edges : List BaseEdge} {i : TypeId} {s : Nat}
    (h : (l.accept r edges).HasSerial i s) :
    (i = r.id ∧ r.body.tag? = some (.anonymous s)) ∨ l.HasSerial i s := by
  unfold HasSerial at h ⊢
  by_cases hi : i = r.id
  · subst hi
    rw [accept, Keyed.lookup_set_self] at h
    exact .inl ⟨rfl, h⟩
  · rw [accept, Keyed.lookup_set_of_ne hi] at h
    exact .inr h

/-- **An entry brings a serial number that no record has yet,** or none, so the layer stays
`Numbered`. -/
theorem Numbered.accept {k : Naming} (h : l.Numbered lo k.serials) (hlo : lo ≤ k.serials)
    {e : Entry} {r : TypeRecord} {edges : List BaseEdge}
    (hr : e.readRecord (k.tagEntry e).1 = .ok (r, edges)) :
    (l.accept r edges).Numbered lo (k.tagEntry e).2.serials := by
  obtain ⟨-, -, hanon, -, -, hser, -⟩ := k.tagEntry_spec e
  have hnew : ∀ s, r.body.tag? = some (.anonymous s) →
      s = k.serials ∧ (k.tagEntry e).2.serials = k.serials + 1 :=
    fun s hs => hanon s (Entry.tag_of_readRecord hr hs).symm
  refine ⟨fun i s hs => ?_, fun i s hs => ?_, fun i j s hi hj => ?_⟩
  · rcases hasSerial_accept hs with ⟨-, hs⟩ | hs
    · have := hnew s hs
      omega
    · exact h.lower i s hs
  · rcases hasSerial_accept hs with ⟨-, hs⟩ | hs
    · have := hnew s hs
      omega
    · have := h.upper i s hs
      omega
  · rcases hasSerial_accept hi with ⟨hir, hi'⟩ | hi' <;>
      rcases hasSerial_accept hj with ⟨hjr, hj'⟩ | hj'
    · exact hir.trans hjr.symm
    · have := hnew s hi'
      have := h.upper j s hj'
      omega
    · have := hnew s hj'
      have := h.upper i s hi'
      omega
    · exact h.injective i j s hi' hj'

end Layer

namespace Environment

/-- **Entries bring serial numbers that no record of the topmost layer has yet** (`Numbered`). -/
theorem numbered_add (env : Environment) {lo : Nat} (es : List Entry) {k : Naming}
    (h : env.top.Numbered lo k.serials) (hlo : lo ≤ k.serials) :
    (env.add es k).1.1.top.Numbered lo (env.add es k).2.serials ∧
      k.serials ≤ (env.add es k).2.serials := by
  induction es generalizing env k with
  | nil => exact ⟨h, Nat.le_refl _⟩
  | cons e es ih =>
    obtain ⟨-, -, -, -, -, hser, -⟩ := k.tagEntry_spec e
    rw [add_cons]
    cases hr : e.readRecord (k.tagEntry e).1 with
    | error f => exact ⟨h.mono (Nat.le_refl _) hser, hser⟩
    | ok v =>
      have hrest := ih (env.accept v.1 v.2) (h.accept hlo hr) (Nat.le_trans hlo hser)
      exact ⟨hrest.1, Nat.le_trans hser hrest.2⟩

theorem below_add (env : Environment) (es : List Entry) (k : Naming) :
    (env.add es k).1.1.below = env.below :=
  add_keeps (P := fun a => a.below = env.below) (fun _ _ _ h _ _ => h) rfl k

/-- Entries without a fault are all read. -/
theorem upToFault_of_add {env : Environment} {es : List Entry} {k : Naming}
    (h : (env.add es k).1.2 = none) : Entry.upToFault es = es := by
  induction es generalizing env k with
  | nil => rfl
  | cons e es ih =>
    rw [add_cons] at h
    cases hr : e.readRecord (k.tagEntry e).1 with
    | error f =>
      rw [hr] at h
      cases h
    | ok v =>
      rw [hr] at h
      rw [Entry.upToFault_cons_ok hr, ih h]

/-- What comes of entries without a fault, where the topmost layer had no aggregates. -/
theorem checked_ok {env env' : Environment} {es : List Entry} {k k' : Naming}
    (hnone : ∀ i s, ¬ env.top.HasSerial i s) (h : env.checked es k = (.ok env', k')) :
    env'.below = env.below ∧ env'.top.Numbered k.serials k'.serials ∧
      k.Reserves (Entry.TagIn es) k' ∧ k.serials ≤ k'.serials := by
  have henv := add_of_checked (congrArg Prod.fst h)
  have hk : (env.add es k).2 = k' := congrArg Prod.snd h
  have hfault : (env.add es k).1.2 = none := by
    rw [checked_eq] at h
    cases hf : (env.add es k).1.2 with
    | none => rfl
    | some f =>
      rw [hf] at h
      cases h
  have hnaming := env.naming_add es k
  obtain ⟨hnum, hser⟩ := numbered_add env es (Layer.numbered_of_none hnone k.serials k.serials)
    (Nat.le_refl _)
  rw [upToFault_of_add hfault] at hnaming
  subst henv hk
  exact ⟨env.below_add es k, hnum, hnaming, hser⟩

/-! ## 2. Trees -/

/-- An environment of a tree. -/
structure Node where
  env : Environment
  /-- The entries of its topmost layer. -/
  entries : List Entry
  /-- The numbers of its layers, the topmost first. A layer has the number of the environment that
  it was made for. -/
  path : List Nat

/-- Extends the environments of a tree, one after the other: `(a, es)` stands for the entries `es`
in a layer on top of the environment with number `a`. An extension that is refused leaves the tree
as it is. -/
def grow (nodes : List Node) : List (Nat × List Entry) → StateM Naming (List Node)
  | [] => pure nodes
  | (a, es) :: branches =>
    match nodes[a]? with
    | none => grow nodes branches
    | some v => do
      match ← v.env.extend es with
      | .ok env => grow (nodes ++ [⟨env, es, nodes.length :: v.path⟩]) branches
      | .error _ => grow nodes branches

/-- The tree of environments over that of the entries `root`. -/
def plant (root : List Entry) (branches : List (Nat × List Entry)) :
    StateM Naming (Except TableFault (List Node)) := do
  match ← ofEntries root with
  | .ok env => return .ok (← grow [⟨env, root, [0]⟩] branches)
  | .error f => return .error f

/-- The naming behind a sequence of requests; `(a, request)` is one to the environment with number
`a`. -/
def useAll (nodes : List Node) (uses : List (Nat × Request)) (k : Naming) : Naming :=
  uses.foldl (fun k u => (nodes[u.1]?).elim k fun v => (v.env.answer u.2 k).2) k

namespace Node

variable (v : Node)

/-- The name that the aggregate of an identifier has so far (`Naming.current?`). -/
def name? (i : TypeId) (k : Naming) : Option String :=
  ((v.env.body? i).bind TypeBody.tag?).bind k.current?

/-- The identifier is that of an aggregate without a tag (`Tag.anonymous`). -/
def Untagged (i : TypeId) : Prop := ∃ s, (v.env.body? i).bind TypeBody.tag? = some (.anonymous s)

/-- The number of the layer that an identifier is found in (`Node.path`). -/
def home? (i : TypeId) : Option Nat :=
  ((v.path.zip v.env.layers).find? fun p => Keyed.has i p.2.records).map Prod.fst

end Node

/-! ## 3. What holds of a tree -/

/-- The layer is the one that was made for the environment with number `a`. -/
def Stands (nodes : List Node) (a : Nat) (l : Layer) : Prop :=
  ∃ v, nodes[a]? = some v ∧ v.env.top = l

/-- What holds of a tree that was begun with the naming `k₀`, and of the naming behind it: the paths
say which layers the environments have, each serial number stands in one record of one layer, and
the tags of all entries are taken. -/
structure Grown (k₀ : Naming) (nodes : List Node) (k : Naming) : Prop where
  layers : ∀ v ∈ nodes, List.Forall₂ (Stands nodes) v.path v.env.layers
  numbered : ∀ v ∈ nodes, v.env.top.Numbered k₀.serials k.serials
  apart : ∀ a b l l' i j s, Stands nodes a l → Stands nodes b l' → l.HasSerial i s →
    l'.HasSerial j s → a = b
  tags : ∀ v ∈ nodes, ∀ e ∈ v.entries, ∀ n, e.tag? = some n → n ∈ k.namer.taken
  keeps : ∀ n ∈ k₀.namer.taken, n ∈ k.namer.taken
  serials : k₀.serials ≤ k.serials
  given : k.given = k₀.given

variable {k₀ k k' : Naming} {nodes : List Node}

theorem grown_nil (k : Naming) : Grown k [] k where
  layers := nofun
  numbered := nofun
  apart := nofun
  tags := nofun
  keeps := fun _ hn => hn
  serials := Nat.le_refl _
  given := rfl

/-- To take more names and more serial numbers does no harm. -/
theorem Grown.later (h : Grown k₀ nodes k) {R : String → Prop} (hk : k.Reserves R k')
    (hs : k.serials ≤ k'.serials) : Grown k₀ nodes k' where
  layers := h.layers
  numbered := fun v hv => (h.numbered v hv).mono (Nat.le_refl _) hs
  apart := h.apart
  tags := fun v hv e he n hn => (hk.taken n).2 (.inl (h.tags v hv e he n hn))
  keeps := fun n hn => (hk.taken n).2 (.inl (h.keeps n hn))
  serials := Nat.le_trans h.serials hs
  given := hk.given.trans h.given

theorem getElem?_push {x v : Node} {a : Nat} (h : (nodes ++ [x])[a]? = some v) :
    nodes[a]? = some v ∨ (a = nodes.length ∧ v = x) := by
  by_cases ha : a < nodes.length
  · rw [List.getElem?_append_left ha] at h
    exact .inl h
  · obtain ⟨hlt, hget⟩ := List.getElem?_eq_some_iff.1 h
    rw [List.length_append, List.length_singleton] at hlt
    obtain rfl : a = nodes.length := by omega
    rw [List.getElem_concat_length rfl] at hget
    exact .inr ⟨rfl, hget.symm⟩

theorem Stands.push {a : Nat} {l : Layer} (h : Stands nodes a l) (x : Node) :
    Stands (nodes ++ [x]) a l := by
  obtain ⟨v, hv, hl⟩ := h
  refine ⟨v, ?_, hl⟩
  rw [List.getElem?_append_left (List.getElem?_eq_some_iff.1 hv).1]
  exact hv

/-- **One environment more,** whose layers below are layers of the tree. -/
theorem Grown.push (h : Grown k₀ nodes k) {env : Environment} {es : List Entry} {path : List Nat}
    (hbelow : List.Forall₂ (Stands nodes) path env.below)
    (hnum : env.top.Numbered k.serials k'.serials) (hk : k.Reserves (Entry.TagIn es) k')
    (hs : k.serials ≤ k'.serials) :
    Grown k₀ (nodes ++ [⟨env, es, nodes.length :: path⟩]) k' := by
  have h' := h.later hk hs
  -- a serial number of the new layer is greater than all those of the tree
  have hnew : ∀ {v i j s}, v ∈ nodes → v.env.top.HasSerial i s → env.top.HasSerial j s → False := by
    intro v i j s hv hi hj
    have := (h.numbered v hv).upper i s hi
    have := hnum.lower j s hj
    omega
  constructor
  · intro v hv
    rcases List.mem_append.1 hv with hv | hv
    · exact (h.layers v hv).imp fun a l hl => hl.push _
    · obtain rfl := List.mem_singleton.1 hv
      have hself : Stands (nodes ++ [⟨env, es, nodes.length :: path⟩]) nodes.length env.top :=
        ⟨_, List.getElem?_concat_length, rfl⟩
      exact .cons hself (hbelow.imp fun a l hl => hl.push _)
  · intro v hv
    rcases List.mem_append.1 hv with hv | hv
    · exact h'.numbered v hv
    · obtain rfl := List.mem_singleton.1 hv
      exact hnum.mono h.serials (Nat.le_refl _)
  · rintro a b l l' i j s ⟨v, hv, rfl⟩ ⟨w, hw, rfl⟩ hi hj
    rcases getElem?_push hv with hv | ⟨rfl, rfl⟩ <;> rcases getElem?_push hw with hw | ⟨rfl, rfl⟩
    · exact h.apart a b _ _ i j s ⟨v, hv, rfl⟩ ⟨w, hw, rfl⟩ hi hj
    · exact (hnew (List.mem_of_getElem? hv) hi hj).elim
    · exact (hnew (List.mem_of_getElem? hw) hj hi).elim
    · rfl
  · intro v hv e he n hn
    rcases List.mem_append.1 hv with hv | hv
    · exact h'.tags v hv e he n hn
    · obtain rfl := List.mem_singleton.1 hv
      exact (hk.taken n).2 (.inr ⟨e, he, hn⟩)
  · exact h'.keeps
  · exact h'.serials
  · exact h'.given

/-- An extension makes an environment over the layers of the one that it extends. -/
theorem Grown.extend (h : Grown k₀ nodes k) {v : Node} (hv : v ∈ nodes) {env : Environment}
    {es : List Entry} (he : v.env.extend es k = (.ok env, k')) :
    Grown k₀ (nodes ++ [⟨env, es, nodes.length :: v.path⟩]) k' := by
  obtain ⟨hbelow, hnum, hk, hs⟩ := checked_ok Layer.not_hasSerial_empty he
  refine h.push ?_ hnum hk hs
  rw [hbelow]
  exact h.layers v hv

/-- **Every tree has what `Grown` says.** -/
theorem grown_grow (h : Grown k₀ nodes k) (branches : List (Nat × List Entry)) :
    Grown k₀ (grow nodes branches k).1 (grow nodes branches k).2 := by
  induction branches generalizing nodes k with
  | nil => exact h
  | cons branch branches ih =>
    obtain ⟨a, es⟩ := branch
    rw [grow]
    cases hv : nodes[a]? with
    | none => exact ih h
    | some v =>
      simp only [bind, StateT.bind]
      rcases he : v.env.extend es k with ⟨_ | env, k'⟩
      · have hk := v.env.naming_extend es k
        have hs := (numbered_add v.env.raised es (k := k)
          (Layer.numbered_of_none Layer.not_hasSerial_empty _ _) (Nat.le_refl k.serials)).2
        rw [he] at hk
        rw [show (v.env.raised.add es k).2 = k' from congrArg Prod.snd he] at hs
        exact ih (h.later hk hs)
      · exact ih (h.extend (List.mem_of_getElem? hv) he)

theorem grown_plant {root : List Entry} {branches : List (Nat × List Entry)}
    (h : plant root branches k₀ = (.ok nodes, k)) : Grown k₀ nodes k := by
  simp only [plant, bind, StateT.bind] at h
  rcases he : ofEntries root k₀ with ⟨f | env, k₁⟩
  · rw [he] at h
    cases h
  · rw [he] at h
    obtain ⟨hbelow, hnum, hk, hs⟩ := checked_ok Layer.not_hasSerial_fundamental he
    have hroot : Grown k₀ [⟨env, root, [0]⟩] k₁ :=
      (grown_nil k₀).push (hbelow ▸ List.Forall₂.nil) hnum hk hs
    have hgrown := grown_grow hroot branches
    cases h
    exact hgrown

/-! ## 4. Records and their layers -/

/-- The record of an identifier stands in the layer that is its home. -/
theorem exists_home {ls : List Layer} {path : List Nat} {S : Nat → Layer → Prop}
    (h : List.Forall₂ S path ls) {i : TypeId} {r : TypeRecord} (hr : lookupIn i ls = some r) :
    ∃ a l, ((path.zip ls).find? fun p => Keyed.has i p.2.records).map Prod.fst = some a ∧
      S a l ∧ l.records.lookup i = some r := by
  induction h with
  | nil => cases hr
  | @cons a l path ls hal _ ih =>
    rw [List.zip_cons_cons]
    cases hl : l.records.lookup i with
    | some r' =>
      rw [lookupIn, hl] at hr
      obtain rfl := Option.some.inj hr
      exact ⟨a, l, by rw [List.find?_cons_of_pos (by simp [Keyed.has, hl])]; rfl, hal, hl⟩
    | none =>
      rw [lookupIn, hl] at hr
      obtain ⟨b, l', hb, hrest⟩ := ih hr
      exact ⟨b, l', by rw [List.find?_cons_of_neg (by simp [Keyed.has, hl])]; exact hb, hrest⟩

/-- **An aggregate without a tag has its serial number in its home** (`Node.home?`). -/
theorem Grown.home (h : Grown k₀ nodes k) {v : Node} (hv : v ∈ nodes) {i : TypeId} {s : Nat}
    (hs : (v.env.body? i).bind TypeBody.tag? = some (.anonymous s)) :
    ∃ a w, v.home? i = some a ∧ nodes[a]? = some w ∧ w.env.top.HasSerial i s := by
  obtain ⟨body, hbody, ht⟩ := Option.bind_eq_some_iff.1 hs
  obtain ⟨r, hr, rfl⟩ := Option.map_eq_some_iff.1 hbody
  obtain ⟨a, l, ha, ⟨w, hw, rfl⟩, hl⟩ := exists_home (h.layers v hv) hr
  refine ⟨a, w, ha, hw, ?_⟩
  unfold Layer.HasSerial
  rw [hl]
  exact ht

/-- Two aggregates without a tag have the same serial number if and only if they are one record. -/
theorem Grown.serial_eq_iff (h : Grown k₀ nodes k) {v w : Node} (hv : v ∈ nodes) (hw : w ∈ nodes)
    {i j : TypeId} {s s' : Nat} (hs : (v.env.body? i).bind TypeBody.tag? = some (.anonymous s))
    (hs' : (w.env.body? j).bind TypeBody.tag? = some (.anonymous s')) :
    s = s' ↔ i = j ∧ v.home? i = w.home? j := by
  obtain ⟨a, v', ha, hv', hi⟩ := h.home hv hs
  obtain ⟨b, w', hb, hw', hj⟩ := h.home hw hs'
  constructor
  · rintro rfl
    obtain rfl := h.apart a b _ _ i j s ⟨v', hv', rfl⟩ ⟨w', hw', rfl⟩ hi hj
    obtain rfl := Option.some.inj (hv'.symm.trans hw')
    exact ⟨(h.numbered v' (List.mem_of_getElem? hv')).injective i j s hi hj, ha.trans hb.symm⟩
  · rintro ⟨rfl, hhome⟩
    rw [ha, hb] at hhome
    obtain rfl := Option.some.inj hhome
    obtain rfl := Option.some.inj (hv'.symm.trans hw')
    have hserial := Option.some.inj (hi.symm.trans hj)
    exact Tag.anonymous.inj hserial

/-! ## 5. Names -/

theorem follows_useAll (nodes : List Node) (uses : List (Nat × Request)) (k : Naming) :
    k.Follows (useAll nodes uses k) := by
  induction uses generalizing k with
  | nil => exact .refl
  | cons u uses ih =>
    refine Naming.Follows.trans ?_ (ih _)
    dsimp only
    cases nodes[u.1]? with
    | none => exact .refl
    | some v => exact (v.env.asking_answer u.2).asks k

/-- The name that an aggregate has so far is the one that is answered for it. -/
theorem aggregateName?_of_name? {v : Node} {i : TypeId} {n : String} (h : v.name? i k = some n) :
    v.env.aggregateName? i k = (some n, k) := by
  obtain ⟨t, ht, hn⟩ := Option.bind_eq_some_iff.1 h
  unfold aggregateName?
  rw [ht]
  show (some (Naming.name t k).1, (Naming.name t k).2) = (some n, k)
  rw [Naming.name_of_current? hn]

theorem useAll_concat {a : Nat} {v : Node} (hv : nodes[a]? = some v) (uses : List (Nat × Request))
    (request : Request) (k : Naming) :
    useAll nodes (uses ++ [(a, request)]) k = (v.env.answer request (useAll nodes uses k)).2 := by
  rw [useAll, List.foldl_append, List.foldl_cons, List.foldl_nil]
  show (nodes[a]?).elim _ _ = _
  rw [hv]
  rfl

/-- **An answer shows names that are recorded:** behind the request the aggregate has the name
(`Node.name?`). -/
theorem shown_of_writes {a : Nat} {v : Node} (hv : nodes[a]? = some v) {request : Request}
    {i : TypeId} (h : v.env.Writes request i) (uses : List (Nat × Request)) (k : Naming) :
    ∃ n, v.name? i (useAll nodes (uses ++ [(a, request)]) k) = some n ∧
      Answered n (v.env.answer request (useAll nodes uses k)).1 := by
  obtain ⟨t, ht, hshows⟩ := h.shown
  obtain ⟨n, hn, hanswered⟩ := hshows (useAll nodes uses k)
  refine ⟨n, ?_, hanswered⟩
  rw [useAll_concat hv, Node.name?, ht]
  exact hn

/-- An aggregate that is asked for its name is told one, and has it from then on. -/
theorem named_of_untagged {v : Node} {i : TypeId} (h : v.Untagged i) (K : Naming) :
    ∃ n, (v.env.aggregateName? i K).1 = some n ∧
      v.name? i (v.env.aggregateName? i K).2 = some n := by
  obtain ⟨s, hs⟩ := h
  obtain ⟨n, hn, hanswer⟩ := shows_aggregateName? hs K
  refine ⟨n, hanswer, ?_⟩
  rw [Node.name?, hs]
  exact hn

/-- **Names in a tree of environments are unique and stay.** Behind any requests to any of its
environments, an aggregate that has a name (`Node.name?`) is called by it, also behind further
requests; two aggregates without a tag are called alike if and only if they are one record, that of
the same identifier in the same layer; and no made-up name is a tag that an entry of the tree
states, whether other entries stand in front of it or not. These are the names that answers show:
`aggregateName?` answers the name that the aggregate has afterwards, and so has each aggregate that
a request `Writes` the name that stands in the answer. -/
theorem tree_names_spec (hk₀ : k₀.Orderly) {root : List Entry}
    {branches : List (Nat × List Entry)} (h : plant root branches k₀ = (.ok nodes, k))
    (uses : List (Nat × Request)) :
    (∀ v ∈ nodes, ∀ i n, v.name? i (useAll nodes uses k) = some n → ∀ more,
      (v.env.aggregateName? i (useAll nodes more (useAll nodes uses k))).1 = some n) ∧
    (∀ v ∈ nodes, ∀ w ∈ nodes, ∀ i j n m, v.Untagged i → w.Untagged j →
      v.name? i (useAll nodes uses k) = some n → w.name? j (useAll nodes uses k) = some m →
      (n = m ↔ i = j ∧ v.home? i = w.home? j)) ∧
    (∀ v ∈ nodes, ∀ i n, v.Untagged i → v.name? i (useAll nodes uses k) = some n →
      ∀ w ∈ nodes, ∀ e ∈ w.entries, e.tag? ≠ some n) ∧
    (∀ v ∈ nodes, ∀ i, v.Untagged i →
      ∃ n, (v.env.aggregateName? i (useAll nodes uses k)).1 = some n ∧
        v.name? i (v.env.aggregateName? i (useAll nodes uses k)).2 = some n) ∧
    ∀ a (v : Node), nodes[a]? = some v → ∀ request i, v.env.Writes request i →
      ∃ n, v.name? i (useAll nodes (uses ++ [(a, request)]) k) = some n ∧
        Answered n (v.env.answer request (useAll nodes uses k)).1 := by
  have hgrown := grown_plant h
  have hfollows := follows_useAll nodes uses k
  have hshown := fun a (v : Node) (hv : nodes[a]? = some v) request i
      (hi : v.env.Writes request i) => shown_of_writes hv hi uses k
  generalize useAll nodes uses k = K at hfollows hshown ⊢
  have hdistinct : K.Distinct [] :=
    ((hk₀.mono hgrown.given hgrown.keeps hgrown.serials).toDistinct).follows hfollows
  refine ⟨fun v _ i n hn more => ?_, ?_, ?_, fun v _ i hi => named_of_untagged hi K, hshown⟩
  · have hstays : v.name? i (useAll nodes more K) = some n := by
      obtain ⟨t, ht, hcur⟩ := Option.bind_eq_some_iff.1 hn
      rw [Node.name?, ht]
      exact (follows_useAll nodes more K).current? hcur
    rw [aggregateName?_of_name? hstays]
  · rintro v hv w hw i j n m ⟨s, hs⟩ ⟨s', hs'⟩ hn hm
    rw [← hgrown.serial_eq_iff hv hw hs hs']
    rw [Node.name?, hs] at hn
    rw [Node.name?, hs'] at hm
    constructor
    · rintro rfl
      exact hdistinct.injective s s' n hn hm
    · rintro rfl
      exact Option.some.inj (hn.symm.trans hm)
  · rintro v hv i n ⟨s, hs⟩ hn w hw e he htag
    rw [Node.name?, hs] at hn
    -- the serial number is one of the tree, which had no name when the tree was planted
    have hunnamed : k.given.lookup s = none := by
      obtain ⟨a, v', -, hv', hi⟩ := hgrown.home hv hs
      have hlo := (hgrown.numbered v' (List.mem_of_getElem? hv')).lower i s hi
      rw [hgrown.given]
      cases hold : k₀.given.lookup s with
      | none => rfl
      | some m =>
        have := hk₀.serials s m hold
        omega
    exact hfollows.fresh_of_new hunnamed hn (hgrown.tags w hw e he n htag)

/-- The struct once more, and another one that is called like the first name that is made up. -/
def overridingEntries : List Entry :=
  untaggedEntries ++
    [{ kind := "structType", type := ⟨"Struct1"⟩, attributes := .ofList [("tag", "__anon_1")] }]

/-- The struct below and the one in front of it are never called alike, nor like the other one.
Asked for its name, the one below is called `__anon_2`, and a variable of the one in front of it is
declared as `struct __anon_3 x`. -/
theorem tree_names_overridden :
    ∃ v w k, plant untaggedEntries [(0, overridingEntries)] {} = (.ok [v, w], k) ∧
      (∀ uses n m, v.name? ⟨"Struct0"⟩ (useAll [v, w] uses k) = some n →
        w.name? ⟨"Struct0"⟩ (useAll [v, w] uses k) = some m →
        n ≠ m ∧ n ≠ "__anon_1" ∧ m ≠ "__anon_1") ∧
      w.env.Writes (.ask (.declare ⟨"Struct0"⟩ "x")) ⟨"Struct0"⟩ ∧
      ∃ k' k'', v.env.aggregateName? ⟨"Struct0"⟩ k = (some "__anon_2", k') ∧
        w.env.declare ⟨"Struct0"⟩ "x" k' = ("struct __anon_3 x", k'') ∧
        v.name? ⟨"Struct0"⟩ k'' = some "__anon_2" ∧ w.name? ⟨"Struct0"⟩ k'' = some "__anon_3" := by
  obtain ⟨v, w, k, hplant, hv, hw, hhome, hentries, hcomes, hfirst, hsecond⟩ : ∃ v w k,
      plant untaggedEntries [(0, overridingEntries)] {} = (.ok [v, w], k) ∧ v.Untagged ⟨"Struct0"⟩ ∧
        (w.env.body? ⟨"Struct0"⟩).bind TypeBody.tag? = some (.anonymous 1) ∧
        v.home? ⟨"Struct0"⟩ ≠ w.home? ⟨"Struct0"⟩ ∧ w.entries = overridingEntries ∧
        w.env.ComesTo [] ⟨"Struct0"⟩ ⟨"Struct0"⟩ ∧
        (v.env.aggregateName? ⟨"Struct0"⟩ k).1 = some "__anon_2" ∧
        (w.env.declareFor (w.env.keys.length + 1) [] .none ⟨"Struct0"⟩ "x"
            (v.env.aggregateName? ⟨"Struct0"⟩ k).2).map
            (fun p => (p.1, p.2.current? (.anonymous 1))) =
          some ("struct __anon_3 x", some "__anon_3") := by
    refine ⟨_, _, _, rfl, ⟨0, rfl⟩, rfl, by decide, rfl, .here rfl List.not_mem_nil rfl, ?_, ?_⟩
    · decide +kernel
    · decide +kernel
  rw [completes_declareFor (Nat.lt_succ_of_le (List.length_filter_le _ _))] at hsecond
  obtain ⟨htext, hnamed⟩ := Prod.ext_iff.1 (Option.some.inj hsecond)
  have hspec := tree_names_spec (Naming.orderly_of_given_nil rfl) hplant
  have hv' : v ∈ [v, w] := by simp
  have hw' : w ∈ [v, w] := by simp
  refine ⟨v, w, k, hplant, fun uses n m hn hm => ?_, .declare hcomes, _, _, Prod.ext hfirst rfl,
    Prod.ext htext rfl, ?_, ?_⟩
  · obtain ⟨-, hdistinct, htags, -, -⟩ := hspec uses
    have htag : ∃ e ∈ w.entries, e.tag? = some "__anon_1" := by
      rw [hentries]
      decide
    obtain ⟨e, he, htag⟩ := htag
    refine ⟨fun hnm => ?_, ?_, ?_⟩
    · exact hhome ((hdistinct v hv' w hw' _ _ n m hv ⟨1, hw⟩ hn hm).1 hnm).2
    · rintro rfl
      exact htags v hv' _ _ hv hn w hw' e he htag
    · rintro rfl
      exact htags w hw' _ _ ⟨1, hw⟩ hm w hw' e he htag
  · -- the name that was answered is recorded, and the declaration leaves it there
    obtain ⟨-, -, -, hrecorded, -⟩ := hspec []
    obtain ⟨n, hn, hname⟩ := hrecorded v hv' _ hv
    obtain rfl := Option.some.inj (hn.symm.trans hfirst)
    obtain ⟨t, ht, hcur⟩ := Option.bind_eq_some_iff.1 hname
    rw [Node.name?, ht]
    exact (w.env.asks_declareWith [] .none _ _ _).current? hcur
  · rw [Node.name?, hw]
    exact hnamed

end Environment

end TypeLedger
