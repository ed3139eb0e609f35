import SharedSession.Proofs.Host.Beat
import SharedSession.Proofs.Names
import SharedSession.Proofs.Product.Notices

set_option autoImplicit false

/-!
# Activity that waits

A session is to begin only upon activity after the end of the last one. But activity is not
answered at once: a signal waits until the driver looks at it, the throttle holds it back until the
end of its window, and the request that it leads to waits in the queue of the tab. Nothing that
waits is dropped when a session ends, so activity from before the end can begin the next one. What
waits at some moment is all that can do so without activity from then on.

Main statements: `Browser.comes_follow`, `Browser.IsQuiet.follow`, `Browser.begun_upon_activity`,
`Browser.begun_after_end`.
-/

namespace SharedSession

/-! ## Drivers -/

/-- Nothing waits at a throttle: calls that do not come do not run. -/
theorem Throttle.trailing_of_idle {t : Throttle} (h : t.isPending = false) (now : Nat) :
    t.takeTrailing now = (false, t) := by
  unfold takeTrailing deadline?
  rw [h]

namespace Driver

/-- No activity waits at the driver. -/
structure IsIdle (d : Driver) : Prop where
  unread : d.unread = 0
  throttle : d.throttle.isPending = false

variable {d : Driver}

/-- A driver at which nothing waits asks for nothing that activity leads to. -/
theorem IsIdle.turn (h : d.IsIdle) (isVisible : Bool) (tick : Nat) :
    .expandOrRenew ∉ (d.turn isVisible tick).requests ∧ (d.turn isVisible tick).driver.IsIdle := by
  have htrailing := Throttle.trailing_of_idle h.throttle (nanosAt tick)
  have hhits : d.throttle.hits (nanosAt tick) d.unread = (0, d.throttle) := by
    rw [h.unread]
    rfl
  unfold Driver.turn
  simp only [hhits, htrailing, List.replicate_zero, List.append_nil, Bool.false_eq_true, if_false]
  refine ⟨?_, rfl, h.throttle⟩
  intro hmem
  rcases List.mem_append.1 hmem with hmem | hmem
  · rcases List.mem_append.1 hmem with hmem | hmem
    · split at hmem
      · cases List.mem_singleton.1 hmem
      · cases hmem
    · split at hmem
      · cases List.mem_singleton.1 hmem
      · cases hmem
  · split at hmem
    · cases List.mem_singleton.1 hmem
    · cases hmem

/-- A new driver has seen nothing. -/
theorem isIdle_new? {c : Config} {product tick : Nat} (h : d ∈ Driver.new? c product tick) :
    d.product = product ∧ d.IsIdle := by
  unfold Driver.new? at h
  split at h
  · obtain rfl := Option.some.inj h
    exact ⟨rfl, rfl, rfl⟩
  · cases h

end Driver

namespace Tab

/-- The operations that wait in the queue of a tab. -/
def operations (t : Tab) : List (Operation (List Product)) := t.processor.operations

/-- A request that joins the queue is one of the product's, unless the tab has been stopped. -/
theorem operations_submit_subset (t : Tab) (product : Nat) (r : Request) (isAwaited : Bool) :
    (t.submit product r isAwaited).operations ⊆ t.operations ++ [r.operation.onIndex product] :=
  Processor.operations_submit_subset _ _ _

theorem drivers_submitAll (t : Tab) (product : Nat) (rs : List Request) :
    (rs.foldl (fun t r => t.submit product r false) t).drivers = t.drivers := by
  induction rs generalizing t with
  | nil => rfl
  | cons r rs ih => exact ih _

theorem operations_submitAll (t : Tab) (product : Nat) (rs : List Request)
    {op : Operation (List Product)}
    (h : op ∈ (rs.foldl (fun t r => t.submit product r false) t).operations) :
    op ∈ t.operations ∨ ∃ r ∈ rs, op = r.operation.onIndex product := by
  induction rs generalizing t with
  | nil => exact .inl h
  | cons r rs ih =>
    rcases ih _ h with hmem | ⟨r', hr', hop⟩
    · rcases List.mem_append.1 (t.operations_submit_subset product r false hmem) with hmem | hmem
      · exact .inl hmem
      · exact .inr ⟨r, List.mem_cons_self, List.mem_singleton.1 hmem⟩
    · exact .inr ⟨r', List.mem_cons_of_mem r hr', hop⟩

/-- What the drivers leave behind: drivers of the same products, at which nothing waits if nothing
did, and requests of theirs in the queue, those of activity only if some waited. -/
theorem turnDrivers_cases (now : Timestamp) (tick : Nat) (ds : List Driver)
    (s : Tab × List Product) :
    (∀ d' ∈ (ds.foldl (turnDriver now tick) s).1.drivers, d' ∈ s.1.drivers ∨
      ∃ d ∈ ds, d'.product = d.product ∧ (d.IsIdle → d'.IsIdle)) ∧
    (∀ op ∈ (ds.foldl (turnDriver now tick) s).1.operations, op ∈ s.1.operations ∨
      ∃ d ∈ ds, ∃ q : Request, op = q.operation.onIndex d.product ∧
        (q = .expandOrRenew → ¬ d.IsIdle)) ∧
    (ds.foldl (turnDriver now tick) s).2.map Product.beginnings = s.2.map Product.beginnings := by
  induction ds generalizing s with
  | nil => exact ⟨fun _ h => .inl h, fun _ h => .inl h, rfl⟩
  | cons d ds ih =>
    obtain ⟨hdrivers, hoperations, hproducts⟩ := ih (turnDriver now tick s d)
    have hidle := fun h : d.IsIdle => h.turn s.1.isVisible tick
    refine ⟨fun d' hd' => ?_, fun op hop => ?_, hproducts.trans ?_⟩
    · rcases hdrivers d' hd' with hmem | ⟨d₀, hd₀, hsame⟩
      · rcases List.mem_append.1 hmem with hmem | hmem
        · rw [drivers_submitAll] at hmem
          exact .inl hmem
        · obtain rfl := List.mem_singleton.1 hmem
          exact .inr ⟨d, List.mem_cons_self, rfl, fun h => (hidle h).2⟩
      · exact .inr ⟨d₀, List.mem_cons_of_mem d hd₀, hsame⟩
    · rcases hoperations op hop with hmem | ⟨d₀, hd₀, hsame⟩
      · rcases operations_submitAll _ _ _ hmem with hmem | ⟨q, hq, rfl⟩
        · exact .inl hmem
        · refine .inr ⟨d, List.mem_cons_self, q, rfl, ?_⟩
          rintro rfl h
          exact (hidle h).1 hq
      · exact .inr ⟨d₀, List.mem_cons_of_mem d hd₀, hsame⟩
    · show (if _ then s.2.modify d.product _ else s.2).map Product.beginnings = _
      split
      · exact map_modify_eq (f := (·.clearOldHistory now)) (g := Product.beginnings) (fun _ => rfl)
          s.2 d.product
      · rfl

end Tab

/-! ## What a beat can do -/

/-- A longer list has the same at the places that a shorter one has. -/
theorem getElem?_mono {α : Type} {l l' : List α} (h : l <+: l') {j : Nat} {a : α}
    (hj : l[j]? = some a) : l'[j]? = some a := by
  obtain ⟨r, rfl⟩ := h
  rw [List.getElem?_append_left (List.getElem?_eq_some_iff.1 hj).1]
  exact hj

/-- Whether a beat brings activity to a product: a signal in its tab, or a call for it. -/
def Beat.Stirs (owners : List Nat) (i : Nat) : Beat → Prop
  | .notify tab count => owners[i]? = some tab ∧ 0 < count
  | .submit product r => product = i ∧ r = .expandOrRenew
  | _ => False

/-- What happens of itself is no activity. -/
theorem Beat.IsRoutine.not_stirs {e : Beat} (h : e.IsRoutine) (owners : List Nat) (i : Nat) :
    ¬ e.Stirs owners i := by
  intro hstirs
  cases e with
  | notify tab count => exact h
  | submit product r => exact h
  | _ => exact hstirs

/-- A request begins something at most for its own product, and only that of activity does. -/
theorem Request.keeps_beginnings (q : Request) (j : Nat) {Q : List (List Notice) → Prop}
    (h : q = .expandOrRenew → ∀ l x, Q l → Q (l.set j x)) :
    (q.operation.onIndex j).Keeps fun own => Q (own.map Product.beginnings) where
  transform o r own hown := by
    rw [q.operation.map_transform_onIndex j own (Product.beginnings_transform q o r)]
    exact hown
  settle now r own hown := by
    by_cases hq : q = .expandOrRenew
    · rw [Operation.settle_onIndex]
      cases hp : own[j]? with
      | none =>
        rw [List.modify_eq_self (List.getElem?_eq_none_iff.1 hp)]
        exact hown
      | some p =>
        rw [List.modify_eq_set_getElem?, hp]
        simp only [Option.map_some, Option.map_eq_map, Option.getD_some, List.map_set]
        exact h hq _ _ hown
    · rw [q.operation.map_settle_onIndex j own (Product.beginnings_settle hq now r)]
      exact hown

namespace Browser

variable {μ : Type} {m : Medium μ} {k : Backing μ} {b : Browser μ} {e : Beat}

/-- What a tab can become. Activity of a product waits where it has waited before, or because it
comes now. -/
structure Comes (b : Browser μ) (e : Beat) (n : Nat) (t t' : Tab) : Prop where
  drivers : ∀ d' ∈ t'.drivers,
    (∃ d ∈ t.drivers, d'.product = d.product ∧
      (d.IsIdle → ¬ d'.IsIdle → ∃ count, e = .notify n count ∧ 0 < count)) ∨
    d'.IsIdle ∧ b.owners[d'.product]? = some n
  operations : ∀ op ∈ t'.operations, op ∈ t.operations ∨
    ∃ (q : Request) (j : Nat), op = q.operation.onIndex j ∧
      (q = .expandOrRenew → e = .submit j q ∨ ∃ d ∈ t.drivers, d.product = j ∧ ¬ d.IsIdle)

/-- Where the drivers stay as they are and no operation joins the queue, nothing comes to wait. -/
theorem comes_of_drivers_eq {n : Nat} {t t' : Tab} (hdrivers : t'.drivers = t.drivers)
    (hoperations : t'.operations ⊆ t.operations) : b.Comes e n t t' where
  drivers d hd := .inl ⟨d, hdrivers ▸ hd, rfl, fun h h' => absurd h h'⟩
  operations _ hop := .inl (hoperations hop)

theorem comes_drive (b : Browser μ) (n tab : Nat) (t : Tab) (own : List Product) :
    b.Comes (.drive tab) n t (t.drive b.now b.timeline.tick own).1 := by
  obtain ⟨hdriven, hoperations, -⟩ := Tab.turnDrivers_cases b.now b.timeline.tick t.drivers
    ({ t with drivers := [] }, own)
  constructor
  · intro d' hd'
    rcases hdriven d' hd' with hnone | ⟨d, hd, hproduct, hidle⟩
    · cases hnone
    · exact .inl ⟨d, hd, hproduct, fun h h' => absurd (hidle h) h'⟩
  · intro op hop
    rcases hoperations op hop with hmem | ⟨d, hd, q, rfl, hbusy⟩
    · exact .inl hmem
    · exact .inr ⟨q, d.product, rfl, fun hq => .inr ⟨d, hd, rfl, hbusy hq⟩⟩

theorem comes_submit (b : Browser μ) (n product : Nat) (r : Request) (t : Tab) :
    b.Comes (.submit product r) n t (t.submit product r true) where
  drivers d hd := .inl ⟨d, hd, rfl, fun h h' => absurd h h'⟩
  operations op hop := by
    rcases List.mem_append.1 (t.operations_submit_subset product r true hop) with hmem | hmem
    · exact .inl hmem
    · exact .inr ⟨r, product, List.mem_singleton.1 hmem, fun _ => .inl rfl⟩

theorem comes_employ {n product : Nat} (howner : b.owners[product]? = some n) (t : Tab) :
    b.Comes (.employ product) n t { t with
      drivers := t.drivers ++ (Driver.new? t.config product b.timeline.tick).toList } where
  drivers d hd := by
    rcases List.mem_append.1 hd with hd | hd
    · exact .inl ⟨d, hd, rfl, fun h h' => absurd h h'⟩
    · obtain ⟨hproduct, hidle⟩ := Driver.isIdle_new? (Option.mem_toList.1 hd)
      exact .inr ⟨hidle, by rw [hproduct, howner]⟩
  operations _ hop := .inl hop

theorem comes_notify (b : Browser μ) (n count : Nat) (t : Tab) :
    b.Comes (.notify n count) n t { t with drivers := t.drivers.map (·.notify count) } where
  drivers d' hd' := by
    obtain ⟨d, hd, rfl⟩ := List.mem_map.1 hd'
    refine .inl ⟨d, hd, rfl, fun hidle hbusy => ⟨count, rfl, ?_⟩⟩
    -- no signals make no difference
    rw [Nat.pos_iff_ne_zero]
    rintro rfl
    refine hbusy ⟨?_, hidle.throttle⟩
    show min (d.unread + 0) Driver.activityCapacity = 0
    rw [hidle.unread]
    rfl
  operations _ hop := .inl hop

/-- A change of one tab is one of the tabs that there are. -/
theorem tabs_modifyTab {f : Tab → Tab} {i n : Nat} {t' : Tab}
    (h : (b.modifyTab i f).tabs[n]? = some t') :
    ∃ t, b.tabs[n]? = some t ∧ (i = n ∧ t' = f t ∨ t' = t) := by
  have hget : (b.tabs.modify i f)[n]? = some t' := h
  rw [List.getElem?_modify] at hget
  obtain ⟨t, ht, rfl⟩ := Option.map_eq_some_iff.1 hget
  refine ⟨t, ht, ?_⟩
  split
  · next hin => exact .inl ⟨hin, rfl⟩
  · exact .inr rfl

theorem tabs_onTab {f : Tab → World μ (List Product) → Tab × World μ (List Product)} {i n : Nat}
    {t' : Tab} (h : (b.onTab i f).tabs[n]? = some t') :
    ∃ t, b.tabs[n]? = some t ∧ (i = n ∧ t' = (f t b.world).1 ∨ t' = t) := by
  unfold onTab at h
  split at h
  · next t ht =>
    have hget : (b.tabs.set i (f t b.world).1)[n]? = some t' := h
    rw [List.getElem?_set] at hget
    split at hget
    · next hin =>
      subst hin
      split at hget
      · exact ⟨t, ht, .inl ⟨rfl, (Option.some.inj hget).symm⟩⟩
      · cases hget
    · exact ⟨t', hget, .inr rfl⟩
  · exact ⟨t', h, .inr rfl⟩

/-- Every tab comes from what it was before, or is empty. -/
theorem comes_follow {n : Nat} {t' : Tab} (h : (b.follow m k e).tabs[n]? = some t') :
    (∃ t, b.tabs[n]? = some t ∧ b.Comes e n t t') ∨ t'.drivers = [] ∧ t'.operations = [] := by
  have hsame : b.tabs[n]? = some t' →
      (∃ t, b.tabs[n]? = some t ∧ b.Comes e n t t') ∨ t'.drivers = [] ∧ t'.operations = [] :=
    fun ht => .inl ⟨t', ht, comes_of_drivers_eq rfl (List.Subset.refl _)⟩
  have hmodified : ∀ (i : Nat) (f : Tab → Tab), (b.modifyTab i f).tabs[n]? = some t' →
      (i = n → ∀ t, b.Comes e n t (f t)) →
      (∃ t, b.tabs[n]? = some t ∧ b.Comes e n t t') ∨ t'.drivers = [] ∧ t'.operations = [] := by
    intro i f hf hcomes
    obtain ⟨t, ht, ⟨hin, rfl⟩ | rfl⟩ := tabs_modifyTab hf
    · exact .inl ⟨t, ht, hcomes hin t⟩
    · exact hsame ht
  have hserved : ∀ (i : Nat) (f : Tab → World μ (List Product) → Tab × World μ (List Product)),
      (b.onTab i f).tabs[n]? = some t' → (∀ t w, b.Comes e n t (f t w).1) →
      (∃ t, b.tabs[n]? = some t ∧ b.Comes e n t t') ∨ t'.drivers = [] ∧ t'.operations = [] := by
    intro i f hf hcomes
    obtain ⟨t, ht, ⟨-, rfl⟩ | rfl⟩ := tabs_onTab hf
    · exact .inl ⟨t, ht, hcomes t b.world⟩
    · exact hsame ht
  cases e with
  | moveTo tick => exact hsame h
  | foreign => exact hsame h
  | drive tab => exact hserved _ _ h fun t w => b.comes_drive n tab t w.own
  | serve tab =>
    refine hserved _ _ h fun t w => comes_of_drivers_eq rfl ?_
    exact Processor.operations_serveNext_subset m b.now b.timeline.tick t.processor w
  | collect tab =>
    exact hmodified _ _ h fun _ t => comes_of_drivers_eq rfl (List.Subset.refl _)
  | openTab config =>
    have hget : (b.tabs ++ [Tab.new config b.now])[n]? = some t' := h
    rw [List.getElem?_append] at hget
    split at hget
    · exact hsame hget
    · obtain rfl := List.mem_singleton.1 (List.mem_of_getElem? hget)
      exact .inr ⟨rfl, rfl⟩
  | enter tab key compute =>
    cases ht : b.tabs[tab]? with
    | none =>
      rw [follow_enter_of_none ht] at h
      exact hsame h
    | some t =>
      rw [follow_enter_of_some ht] at h
      exact hsame h
  | submit product r =>
    cases howner : b.owners[product]? with
    | none =>
      rw [follow_submit_of_none howner] at h
      exact hsame h
    | some tab =>
      rw [follow_submit howner] at h
      exact hmodified _ _ h fun _ t => b.comes_submit n product r t
  | redate product start => exact hsame h
  | employ product =>
    cases howner : b.owners[product]? with
    | none =>
      rw [follow_employ_of_none howner] at h
      exact hsame h
    | some tab =>
      rw [follow_employ howner] at h
      exact hmodified _ _ h fun htab t => comes_employ (htab ▸ howner) t
  | notify tab count => exact hmodified _ _ h fun htab t => htab ▸ b.comes_notify tab count t
  | look tab isVisible =>
    refine hmodified _ _ h fun _ t => ⟨fun d' hd' => .inl ?_, fun op hop => .inl hop⟩
    obtain ⟨d, hd, rfl⟩ := List.mem_map.1 hd'
    exact ⟨d, hd, rfl, fun hidle hbusy => absurd ⟨hidle.unread, hidle.throttle⟩ hbusy⟩
  | mark tab =>
    refine hmodified _ _ h fun _ t => comes_of_drivers_eq rfl ?_
    exact (congrArg (· ⊆ t.operations) t.processor.operations_flush).mpr (List.Subset.refl _)
  | giveUp product => exact hsame h
  | overwrite raw => exact hsame h
  | announce ahead raw => exact hsame h
  | stop tab => exact hmodified _ _ h fun _ t => ⟨fun d hd => absurd hd List.not_mem_nil,
      fun op hop => absurd hop List.not_mem_nil⟩

/-- No product is put into another tab. -/
theorem owners_follow (m : Medium μ) (k : Backing μ) (b : Browser μ) (e : Beat) :
    b.owners <+: (b.follow m k e).owners := by
  have hsame : ∀ b' : Browser μ, b'.owners = b.owners → b.owners <+: b'.owners :=
    fun b' h => h ▸ List.prefix_refl _
  cases e with
  | drive tab => exact hsame _ (b.owners_onTab tab _)
  | serve tab => exact hsame _ (b.owners_onTab tab _)
  | enter tab key compute =>
    cases ht : b.tabs[tab]? with
    | none => exact hsame _ (by rw [follow_enter_of_none ht])
    | some t =>
      rw [follow_enter_of_some ht]
      exact List.prefix_append _ _
  | submit product r => exact hsame _ (sameButTabs_submit m k b product r).owners
  | employ product => exact hsame _ (sameButTabs_employ m k b product).owners
  | _ => exact hsame _ rfl

theorem owners_followAll (m : Medium μ) (k : Backing μ) (b : Browser μ) (beats : List Beat) :
    b.owners <+: (b.followAll m k beats).owners := by
  induction beats generalizing b with
  | nil => exact List.prefix_refl _
  | cons e beats ih => exact (owners_follow m k b e).trans (ih _)

/-- What is announced as begun changes only where a queue is served, unless a product joins, which has
announced nothing. -/
theorem beginnings_follow (m : Medium μ) (k : Backing μ) (e : Beat) {Q : List (List Notice) → Prop}
    (hserve : ∀ (n : Nat) (t : Tab), b.tabs[n]? = some t → ∀ op ∈ t.operations,
      op.Keeps fun own => Q (own.map Product.beginnings))
    (h : Q (b.products.map Product.beginnings)) :
    (b.follow m k e).owners = b.owners ∧ Q ((b.follow m k e).products.map Product.beginnings) ∨
    ∃ tab product, (b.follow m k e).owners = b.owners ++ [tab] ∧
      (b.follow m k e).products = b.products ++ [product] ∧ product.beginnings = [] := by
  have hsame : ∀ b' : Browser μ, b'.owners = b.owners →
      b'.products.map Product.beginnings = b.products.map Product.beginnings →
      b'.owners = b.owners ∧ Q (b'.products.map Product.beginnings) ∨
      ∃ tab product, b'.owners = b.owners ++ [tab] ∧
        b'.products = b.products ++ [product] ∧ product.beginnings = [] := by
    intro b' howners hproducts
    rw [hproducts]
    exact .inl ⟨howners, h⟩
  have hunchanged : ∀ b' : Browser μ, b' = b →
      b'.owners = b.owners ∧ Q (b'.products.map Product.beginnings) ∨
      ∃ tab product, b'.owners = b.owners ++ [tab] ∧
        b'.products = b.products ++ [product] ∧ product.beginnings = [] := by
    rintro b' rfl
    exact hsame b' rfl rfl
  cases e with
  | drive tab =>
    cases ht : b.tabs[tab]? with
    | none =>
      have hdrive : b.driveTab tab = b := onTab_of_none ht _
      exact hunchanged _ hdrive
    | some t =>
      obtain ⟨-, -, hproducts⟩ := Tab.turnDrivers_cases b.now b.timeline.tick t.drivers
        ({ t with drivers := [] }, b.products)
      refine hsame _ (b.owners_onTab tab _) ?_
      show (b.driveTab tab).products.map Product.beginnings = _
      rw [driveTab, onTab_of_some ht]
      exact hproducts
  | serve tab =>
    cases ht : b.tabs[tab]? with
    | none =>
      have hserve : b.serveTab m tab = b := onTab_of_none ht _
      exact hunchanged _ hserve
    | some t =>
      refine .inl ⟨b.owners_onTab tab _, ?_⟩
      show Q ((b.serveTab m tab).products.map Product.beginnings)
      rw [serveTab, onTab_of_some ht]
      exact Processor.own_serveNext m b.now b.timeline.tick (hserve tab t ht) h
  | enter tab key compute =>
    cases ht : b.tabs[tab]? with
    | none => exact hunchanged _ (follow_enter_of_none ht key compute)
    | some t =>
      rw [follow_enter_of_some ht]
      exact .inr ⟨_, _, rfl, rfl, rfl⟩
  | submit product r =>
    have hsubmit := sameButTabs_submit m k b product r
    exact hsame _ hsubmit.owners (by rw [products, hsubmit.world, products])
  | employ product =>
    have hemploy := sameButTabs_employ m k b product
    exact hsame _ hemploy.owners (by rw [products, hemploy.world, products])
  | redate product start =>
    refine hsame _ rfl ?_
    exact map_modify_eq (f := (·.resetHistory start)) (g := Product.beginnings) (fun _ => rfl)
      b.products product
  | giveUp product =>
    refine hsame _ rfl ?_
    exact map_modify_eq (fun p => p.beginnings_synchronize b.now ∅) b.products product
  | _ => exact hsame _ rfl rfl

/-! ## What waits -/

/-- Products, drivers and requests belong together. -/
structure IsSound (b : Browser μ) : Prop where
  /-- every product has a tab -/
  owned : b.owners.length = b.products.length
  /-- a driver is in the tab of its product -/
  driven : ∀ (n : Nat) (t : Tab), b.tabs[n]? = some t →
    ∀ d ∈ t.drivers, b.owners[d.product]? = some n
  /-- nothing but requests of products is in the queues -/
  asked : ∀ (n : Nat) (t : Tab), b.tabs[n]? = some t →
    ∀ op ∈ t.operations, ∃ (q : Request) (j : Nat), op = q.operation.onIndex j

theorem isSound_new (start : Timestamp) (medium : μ) (names : Supply) :
    (new start medium names).IsSound :=
  ⟨rfl, fun _ _ h => absurd h nofun, fun _ _ h => absurd h nofun⟩

/-- What is in the queues leaves the number of products as it is. -/
theorem IsSound.keeps_length (h : b.IsSound) (n : Nat) (t : Tab) (ht : b.tabs[n]? = some t)
    (op : Operation (List Product)) (hop : op ∈ t.operations) :
    op.Keeps fun own => (own.map Product.beginnings).length = b.products.length := by
  obtain ⟨q, j, rfl⟩ := h.asked n t ht op hop
  refine q.keeps_beginnings j (Q := fun l => l.length = b.products.length) fun _ l x hl => ?_
  rw [List.length_set]
  exact hl

/-- What comes from it by a beat is sound as well. -/
theorem IsSound.of_comes (h : b.IsSound) {b' : Browser μ} (howners : b.owners <+: b'.owners)
    (hcomes : ∀ (n : Nat) (t' : Tab), b'.tabs[n]? = some t' →
      (∃ t, b.tabs[n]? = some t ∧ b.Comes e n t t') ∨ t'.drivers = [] ∧ t'.operations = [])
    (hadds : b'.owners = b.owners ∧
        (b'.products.map Product.beginnings).length = b.products.length ∨
      ∃ tab product, b'.owners = b.owners ++ [tab] ∧
        b'.products = b.products ++ [product] ∧ product.beginnings = []) :
    b'.IsSound := by
  constructor
  · rcases hadds with ⟨howners, hproducts⟩ | ⟨tab, product, howners, hproducts, -⟩
    · rw [List.length_map] at hproducts
      rw [howners, hproducts]
      exact h.owned
    · rw [howners, hproducts, List.length_append, List.length_append, h.owned]
      rfl
  · intro n t' ht' d' hd'
    rcases hcomes n t' ht' with ⟨t, ht, hcomes⟩ | ⟨hnone, -⟩
    · rcases hcomes.drivers d' hd' with ⟨d, hd, hproduct, -⟩ | ⟨-, howner⟩
      · rw [hproduct]
        exact getElem?_mono howners (h.driven n t ht d hd)
      · exact getElem?_mono howners howner
    · rw [hnone] at hd'
      cases hd'
  · intro n t' ht' op hop
    rcases hcomes n t' ht' with ⟨t, ht, hcomes⟩ | ⟨-, hnone⟩
    · rcases hcomes.operations op hop with hmem | ⟨q, j, hq, -⟩
      · exact h.asked n t ht op hmem
      · exact ⟨q, j, hq⟩
    · rw [hnone] at hop
      cases hop

theorem IsSound.follow (h : b.IsSound) (m : Medium μ) (k : Backing μ) (e : Beat) :
    (b.follow m k e).IsSound :=
  h.of_comes (owners_follow m k b e) (fun _ _ ht' => comes_follow ht')
    (beginnings_follow (Q := fun l => l.length = b.products.length) m k e h.keeps_length
      (List.length_map _))

theorem IsSound.followAll (h : b.IsSound) (m : Medium μ) (k : Backing μ) (beats : List Beat) :
    (b.followAll m k beats).IsSound := by
  induction beats generalizing b with
  | nil => exact h
  | cons e beats ih => exact ih (h.follow m k e)

/-- Activity of a product waits: at its driver, or as a request in a queue. -/
def Waits (b : Browser μ) (i : Nat) : Prop :=
  ∃ (n : Nat) (t : Tab), b.tabs[n]? = some t ∧
    ((∃ d ∈ t.drivers, d.product = i ∧ (0 < d.unread ∨ d.throttle.isPending = true)) ∨
      Request.expandOrRenew.operation.onIndex i ∈ t.operations)

/-- No activity of a product waits. What is in the queues are other requests, or of others. -/
structure IsQuiet (b : Browser μ) (i : Nat) : Prop where
  drivers : ∀ (n : Nat) (t : Tab), b.tabs[n]? = some t → ∀ d ∈ t.drivers, d.product = i → d.IsIdle
  operations : ∀ (n : Nat) (t : Tab), b.tabs[n]? = some t → ∀ op ∈ t.operations,
    ∃ (q : Request) (j : Nat), op = q.operation.onIndex j ∧ (q = .expandOrRenew → j ≠ i)

theorem isQuiet_new (start : Timestamp) (medium : μ) (names : Supply) (i : Nat) :
    (new start medium names).IsQuiet i :=
  ⟨fun _ _ h => absurd h nofun, fun _ _ h => absurd h nofun⟩

variable {i : Nat}

theorem IsSound.waits_of_not_quiet (h : b.IsSound) (hquiet : ¬ b.IsQuiet i) : b.Waits i := by
  by_contra hwaits
  refine hquiet ⟨fun n t ht d hd hproduct => ?_, fun n t ht op hop => ?_⟩
  · constructor
    · by_contra hunread
      exact hwaits ⟨n, t, ht, .inl ⟨d, hd, hproduct, .inl (Nat.pos_of_ne_zero hunread)⟩⟩
    · by_contra hpending
      rw [Bool.not_eq_false] at hpending
      exact hwaits ⟨n, t, ht, .inl ⟨d, hd, hproduct, .inr hpending⟩⟩
  · obtain ⟨q, j, rfl⟩ := h.asked n t ht op hop
    refine ⟨q, j, rfl, ?_⟩
    rintro rfl rfl
    exact hwaits ⟨n, t, ht, .inr hop⟩

/-- As long as no activity comes, none waits where none did. -/
theorem IsQuiet.follow (h : b.IsQuiet i) (hsound : b.IsSound) (m : Medium μ) (k : Backing μ)
    (he : ¬ e.Stirs b.owners i) : (b.follow m k e).IsQuiet i := by
  constructor
  · intro n t' ht' d' hd' hproduct
    rcases comes_follow ht' with ⟨t, ht, hcomes⟩ | ⟨hnone, -⟩
    · rcases hcomes.drivers d' hd' with ⟨d, hd, hsame, hstirred⟩ | ⟨hidle, -⟩
      · rw [hproduct] at hsame
        by_contra hbusy
        obtain ⟨count, rfl, hcount⟩ := hstirred (h.drivers n t ht d hd hsame.symm) hbusy
        refine he ⟨?_, hcount⟩
        rw [hsame]
        exact hsound.driven n t ht d hd
      · exact hidle
    · rw [hnone] at hd'
      cases hd'
  · intro n t' ht' op hop
    rcases comes_follow ht' with ⟨t, ht, hcomes⟩ | ⟨-, hnone⟩
    · rcases hcomes.operations op hop with hmem | ⟨q, j, hq, hcause⟩
      · exact h.operations n t ht op hmem
      · refine ⟨q, j, hq, ?_⟩
        rintro rfl rfl
        rcases hcause rfl with rfl | ⟨d, hd, hproduct, hbusy⟩
        · exact he ⟨rfl, rfl⟩
        · exact hbusy (h.drivers n t ht d hd hproduct)
    · rw [hnone] at hop
      cases hop

/-- While no activity of a product waits, a beat begins no session of it. -/
theorem IsQuiet.beginnings (h : b.IsQuiet i) (m : Medium μ) (k : Backing μ) (e : Beat) {p : Product}
    (hp : b.products[i]? = some p) :
    ∃ q, (b.follow m k e).products[i]? = some q ∧ q.beginnings = p.beginnings := by
  have hkeeps : ∀ (n : Nat) (t : Tab), b.tabs[n]? = some t → ∀ op ∈ t.operations,
      op.Keeps fun own => (own.map Product.beginnings)[i]? = some p.beginnings := by
    intro n t ht op hop
    obtain ⟨q, j, rfl, hother⟩ := h.operations n t ht op hop
    refine q.keeps_beginnings j (Q := fun l => l[i]? = some p.beginnings) fun hq l x hl => ?_
    rw [List.getElem?_set_ne (hother hq)]
    exact hl
  rcases beginnings_follow (Q := fun l => l[i]? = some p.beginnings) m k e hkeeps
      (by rw [List.getElem?_map, hp]; rfl) with
    ⟨-, hkept⟩ | ⟨tab, product, -, hproducts, -⟩
  · rw [List.getElem?_map] at hkept
    exact Option.map_eq_some_iff.1 hkept
  · rw [hproducts]
    exact ⟨p, getElem?_mono (List.prefix_append _ _) hp, rfl⟩

/-- So it goes on until activity comes. -/
theorem IsQuiet.followAll {beats : List Beat} (h : b.IsQuiet i) (hsound : b.IsSound) (m : Medium μ)
    (k : Backing μ) (owners : List Nat) (howners : (b.followAll m k beats).owners <+: owners)
    (hbeats : ∀ e ∈ beats, ¬ e.Stirs owners i) :
    (b.followAll m k beats).IsQuiet i ∧ ∀ p, b.products[i]? = some p →
      ∃ q, (b.followAll m k beats).products[i]? = some q ∧ q.beginnings = p.beginnings := by
  induction beats generalizing b with
  | nil => exact ⟨h, fun p hp => ⟨p, hp, rfl⟩⟩
  | cons e beats ih =>
    have hbefore : b.owners <+: owners := (owners_followAll m k b (e :: beats)).trans howners
    have he : ¬ e.Stirs b.owners i := by
      intro hstirs
      refine hbeats e List.mem_cons_self ?_
      cases e with
      | notify tab count => exact ⟨getElem?_mono hbefore hstirs.1, hstirs.2⟩
      | submit product r => exact hstirs
      | _ => exact hstirs.elim
    obtain ⟨hquiet, hrest⟩ := ih (h.follow hsound m k he) (hsound.follow m k e) howners
      fun e' he' => hbeats e' (List.mem_cons_of_mem e he')
    refine ⟨hquiet, fun p hp => ?_⟩
    obtain ⟨p', hp', hsame⟩ := h.beginnings m k e hp
    obtain ⟨q, hq, hlater⟩ := hrest p' hp'
    exact ⟨q, hq, hlater.trans hsame⟩

/-! ## Whole runs -/

/-- What actions come to, told beat by beat. -/
inductive Recital (m : Medium μ) (k : Backing μ) : Browser μ → List Action → List Beat → Prop where
  | nil (b : Browser μ) : Recital m k b [] []
  | cons {b : Browser μ} {a : Action} {actions : List Action} {beats more : List Beat}
      (hbeats : ∀ e ∈ beats, a.Includes b e) (hact : b.followAll m k beats = b.act m k a)
      (h : Recital m k (b.act m k a) actions more) : Recital m k b (a :: actions) (beats ++ more)

/-- Every run can be told beat by beat. -/
theorem exists_recital (h : b.IsSound) (m : Medium μ) (k : Backing μ) (actions : List Action) :
    ∃ beats, Recital m k b actions beats := by
  induction actions generalizing b with
  | nil => exact ⟨[], .nil b⟩
  | cons a actions ih =>
    obtain ⟨beats, hbeats, hact⟩ := unfolds_act (m := m) (k := k) a b h.owned
    obtain ⟨more, hmore⟩ := ih (hact ▸ h.followAll m k beats)
    exact ⟨beats ++ more, .cons hbeats hact hmore⟩

theorem Recital.followAll_eq {actions : List Action} {beats : List Beat}
    (h : Recital m k b actions beats) : b.followAll m k beats = actions.foldl (act m k) b := by
  induction h with
  | nil b => rfl
  | @cons b a actions beats more hbeats hact h ih =>
    rw [followAll_append, hact]
    exact ih

theorem Recital.append {actions others : List Action} {beats more : List Beat}
    (h : Recital m k b actions beats)
    (hothers : Recital m k (actions.foldl (act m k) b) others more) :
    Recital m k b (actions ++ others) (beats ++ more) := by
  induction h with
  | nil b => exact hothers
  | cons hbeats hact h ih =>
    rw [List.append_assoc]
    exact .cons hbeats hact (ih hothers)

theorem Recital.includes {a : Action} {beats : List Beat} (h : Recital m k b [a] beats) :
    ∀ e ∈ beats, a.Includes b e := by
  cases h with
  | cons hbeats _ hrest =>
    cases hrest with
    | nil =>
      rw [List.append_nil]
      exact hbeats

/-- While time passes, no activity comes. -/
theorem not_stirs_of_advance {ms : Nat} {e : Beat} (h : (Action.advance ms).Includes b e)
    (owners : List Nat) (i : Nat) : ¬ e.Stirs owners i := by
  cases h with
  | routine hroutine => exact hroutine.not_stirs owners i

/-- Pages and products do what they like on any medium. A run can be told beat by beat; let it be told
in any such way, and let one moment of it be chosen, between any two beats. If a product that is there
announces from then on that a session begins, then from then on there was activity for it: a signal
in its tab, or a call for it. Or else activity waited at that moment that had come before: at the
product's driver, or as a request of the product in a queue. -/
theorem begun_upon_activity (m : Medium μ) (k : Backing μ) (start : Timestamp) (medium : μ)
    (names : Supply) (actions : List Action) :
    (∃ beats, Recital m k (new start medium names) actions beats) ∧
      ∀ past future, Recital m k (new start medium names) actions (past ++ future) →
        ∀ b₁ b₂ : Browser μ, b₁ = (new start medium names).followAll m k past →
          b₂ = actions.foldl (act m k) (new start medium names) →
          ∀ i p q, b₁.products[i]? = some p → b₂.products[i]? = some q →
            q.beginnings ≠ p.beginnings →
            (∃ e ∈ future, e.Stirs b₂.owners i) ∨ b₁.Waits i ∧ ∃ e ∈ past, e.Stirs b₂.owners i := by
  refine ⟨exists_recital (isSound_new start medium names) m k actions, ?_⟩
  rintro past future hrecital b₁ b₂ rfl hb₂ i p q hp hq hbegun
  have hsplit : b₂ = ((new start medium names).followAll m k past).followAll m k future := by
    rw [hb₂, ← hrecital.followAll_eq, followAll_append]
  have hsound := (isSound_new start medium names).followAll m k past
  by_contra hnone
  obtain ⟨hfuture, hpast⟩ := not_or.1 hnone
  have hquiet : ((new start medium names).followAll m k past).IsQuiet i := by
    by_contra hbusy
    have hstirred : ¬ ∃ e ∈ past, e.Stirs b₂.owners i :=
      fun h => hpast ⟨hsound.waits_of_not_quiet hbusy, h⟩
    have hbefore : ((new start medium names).followAll m k past).owners <+: b₂.owners := by
      rw [hsplit]
      exact owners_followAll m k _ future
    exact hbusy ((isQuiet_new start medium names i).followAll (isSound_new start medium names) m k
      b₂.owners hbefore fun e he hstirs => hstirred ⟨e, he, hstirs⟩).1
  obtain ⟨-, hkept⟩ := hquiet.followAll hsound m k b₂.owners (hsplit ▸ List.prefix_refl _)
    fun e he hstirs => hfuture ⟨e, he, hstirs⟩
  obtain ⟨q', hq', hsame⟩ := hkept p hp
  rw [← hsplit] at hq'
  obtain rfl := Option.some.inj (hq.symm.trans hq')
  exact hbegun hsame

/-- A product is in a session. A signal comes, is answered, and another one comes soon afterwards.
Then the product ends its session. -/
def parting : List Action :=
  [.openTab .default, .start 0 "a" fun _ _ => .sampledIn, .advance 50, .activity 0 1, .advance 100,
    .activity 0 1, .expire 0]

/-- Where that leads to on a medium of its own. -/
def parted : Browser (Option String) :=
  parting.foldl (act (.memory true) .memory) (new .epoch none .tallies)

/-- When the window of the throttle is over, the product begins another session, although no
activity has come since it ended the last one: the end of a session leaves the throttle as it is. -/
theorem begun_after_end :
    parted.products.map (fun p => (p.notices.map Notice.isRenewal, p.hasSession))
      = [([false, true], false)] ∧
    (∀ e, (Action.advance 1000).Includes parted e → ∀ owners, ¬ e.Stirs owners 0) ∧
    (parted.act (.memory true) .memory (.advance 1000)).products.map
      (fun p => (p.notices.map Notice.isRenewal, p.hasSession)) = [([true, false, true], true)] :=
  ⟨by decide +kernel, fun _ he owners => not_stirs_of_advance he owners 0, by decide +kernel⟩

/-- The activity has come before: it waits when the session ends. -/
theorem begun_upon_activity_parted :
    parted.products.map (fun p => p.beginnings.length) = [1] ∧
    (parted.act (.memory true) .memory (.advance 1000)).products.map (fun p => p.beginnings.length)
      = [2] ∧
    parted.Waits 0 := by
  have hbefore : parted.products.map (fun p => p.beginnings.length) = [1] := by decide +kernel
  have hafter : (parted.act (.memory true) .memory (.advance 1000)).products.map
      (fun p => p.beginnings.length) = [2] := by decide +kernel
  refine ⟨hbefore, hafter, ?_⟩
  obtain ⟨p, hp, hone⟩ := List.map_eq_singleton_iff.1 hbefore
  obtain ⟨q, hq, htwo⟩ := List.map_eq_singleton_iff.1 hafter
  have hbegun : q.beginnings ≠ p.beginnings := by
    intro hsame
    rw [hsame, hone] at htwo
    cases htwo
  have hsound := isSound_new (μ := Option String) .epoch none .tallies
  obtain ⟨past, hpast⟩ := exists_recital hsound (.memory true) .memory parting
  have hparted : (new .epoch none .tallies).followAll (.memory true) .memory past = parted :=
    hpast.followAll_eq
  obtain ⟨future, hfuture⟩ := exists_recital (hparted ▸ hsound.followAll (.memory true) .memory past)
    (.memory true) .memory [.advance 1000]
  have hrun : parted.act (.memory true) .memory (.advance 1000)
      = (parting ++ [Action.advance 1000]).foldl (act (.memory true) .memory)
        (new .epoch none .tallies) := by
    rw [List.foldl_append, List.foldl_cons, List.foldl_nil, parted]
  have hrecital : Recital (.memory true) .memory (new .epoch none .tallies)
      (parting ++ [Action.advance 1000]) (past ++ future) := by
    refine hpast.append ?_
    rw [← parted]
    exact hfuture
  have htold := (begun_upon_activity (.memory true) .memory .epoch none .tallies
    (parting ++ [.advance 1000])).2 past future hrecital
  rcases htold parted _ hparted.symm hrun 0 p q (by rw [hp]; rfl) (by rw [hq]; rfl) hbegun with
    ⟨e, he, hstirs⟩ | ⟨hwaits, -⟩
  · exact absurd hstirs (not_stirs_of_advance (hfuture.includes e he) _ 0)
  · exact hwaits

end Browser

end SharedSession
