import BackboneEvents.SeamDeliveries
import BackboneEvents.TransactionInterleavings
import BackboneEvents.GuardedRuns

/-!
# Concurrent confirmed deliveries of one order

Deliveries of one order under distinct delivery ids run interleaved. Each claims its key,
counts the rows linked to the order without a lock, and mints when it counted none. Two
deliveries that count before either commits both mint. When no delivery counts while
another that counted none is open, one delivery mints and all others heal.
-/
namespace BackboneEvents.MintInterleavings
open ConstrainedTables TransactionPrograms TransactionInterleavings GrandTotal GuardedRuns

section keys

/-- What a clash and the linked count read of a registration. -/
def rowKey (r : Registration) : Uuid × String × Option Uuid := (r.id, r.barcode, r.saleOrderId)

def rowKeys (s : Db) : List (Uuid × String × Option Uuid) := s.registrations.rows.map rowKey

def keyClash (k : Uuid × String × Option Uuid) (r : Registration) : Bool :=
  k.1 == r.id || k.2.1 == r.barcode

variable {s : Db} {r : Registration} {orderId : Uuid}

theorem linked_eq_rowKeys : s.linked orderId = (rowKeys s).countP (·.2.2 == some orderId) := by
  rw [rowKeys, List.countP_map]
  rfl

theorem accepts_iff_rowKeys :
    s.registrations.accepts r = true ↔ ∀ k ∈ rowKeys s, keyClash k r = false := by
  rw [Table.accepts_iff, rowKeys, List.forall_mem_map]
  rfl

theorem rowKeys_push (h : s.registrations.accepts r = true) :
    rowKeys { s with registrations := s.registrations.push r } = rowKeys s ++ [rowKey r] := by
  rw [rowKeys, Table.rows_push h, List.map_append]
  rfl

theorem rowKeys_modify {p : Registration → Bool} {f : Update Registration}
    (h : ∀ r, rowKey (f r) = rowKey r) :
    rowKeys { s with registrations := s.registrations.modify p f } = rowKeys s := by
  rw [rowKeys, Table.rows_modify, List.map_map, rowKeys]
  refine List.map_congr_left fun r _ => ?_
  by_cases hp : p r = true <;> simp [hp, h]

end keys

section programs

variable {α β : Type} {orderId : Uuid}

/-- A write that neither adds registrations, nor changes a key of one, nor claims deliveries. -/
def Quiet (write : Db → Db → Db) : Prop :=
  ∀ v s, rowKeys (write v s) = rowKeys s ∧ (write v s).seamInbox = s.seamInbox

def insertWrite (env : Env) (r : Registration) (v s : Db) : Db :=
  if insertable v env r then { s with registrations := s.registrations.push r } else s

/-- Every path of the program to its end inserts `n` registrations of the order. -/
def Inserts (orderId : Uuid) : Tx α → ℕ → Prop
  | .done _, n => n = 0
  | .refuse _, _ => True
  | .statement locks write next, n =>
    (Quiet write ∧ ∀ v, Inserts orderId (next v) n) ∨
    ∃ env r m, n = m + 1 ∧ r.ofOrder orderId = true ∧
      (∀ v, locks v = [.registration r.id, .barcode r.barcode]) ∧ write = insertWrite env r ∧
      ∀ v, (insertable v env r = true → Inserts orderId (next v) m) ∧
        (insertable v env r = false → ∃ e, next v = .refuse e)
  | .note _ next, n => Inserts orderId next n
  | .noteAfter _ next, n => Inserts orderId next n

theorem inserts_bind {x : Tx α} {f : α → Tx β} {m n : ℕ} (hx : Inserts orderId x m)
    (hf : ∀ a, Inserts orderId (f a) n) : Inserts orderId (x.bind f) (m + n) := by
  induction x generalizing m with
  | done a =>
    obtain rfl : m = 0 := hx
    simpa [Program.bind] using hf a
  | refuse e => trivial
  | statement locks write next ih =>
    rcases hx with ⟨hquiet, hnext⟩ | ⟨env, r, k, rfl, horder, hlocks, hwrite, hnext⟩
    · exact .inl ⟨hquiet, fun v => ih v (hnext v)⟩
    · refine .inr ⟨env, r, k + n, by omega, horder, hlocks, hwrite, fun v => ⟨?_, ?_⟩⟩
      · exact fun hv => ih v ((hnext v).1 hv)
      · intro hv
        obtain ⟨e, he⟩ := (hnext v).2 hv
        exact ⟨e, by simp only [he, Program.bind]⟩
  | note k next ih => exact ih hx
  | noteAfter k next ih => exact ih hx

/-- A first part that inserts nothing. -/
theorem inserts_bind_zero {x : Tx α} {f : α → Tx β} {n : ℕ} (hx : Inserts orderId x 0)
    (hf : ∀ a, Inserts orderId (f a) n) : Inserts orderId (x.bind f) n := by
  simpa using inserts_bind hx hf

theorem inserts_statement {locks : Db → List Lock} {write : Db → Db → Db} {f : Db → α}
    (h : Quiet write) : Inserts orderId (Program.update locks write f) 0 :=
  .inl ⟨h, fun _ => rfl⟩

theorem quiet_id : Quiet (fun _ s => s) := fun _ _ => ⟨rfl, rfl⟩

theorem inserts_select (f : Db → α) : Inserts orderId (Program.select f : Tx α) 0 :=
  .inl ⟨quiet_id, fun _ => rfl⟩

theorem inserts_selectForUpdate (locks : Db → List Lock) (f : Db → α) :
    Inserts orderId (Program.selectForUpdate locks f : Tx α) 0 := .inl ⟨quiet_id, fun _ => rfl⟩

theorem inserts_require (o : Option α) (e : EventError) :
    Inserts orderId (Program.require o e : Tx α) 0 := by
  cases o with
  | none => trivial
  | some a => rfl

theorem inserts_refuseWhen (b : Bool) (e : EventError) :
    Inserts orderId (Program.refuseWhen b e : Tx Unit) 0 := by
  cases b with
  | true => trivial
  | false => rfl

theorem inserts_onlyIf (b : Bool) {p : Tx Unit} (h : Inserts orderId p 0) :
    Inserts orderId (Program.onlyIf b p) 0 := by
  cases b with
  | true => exact h
  | false => rfl

theorem inserts_lockEvent (eventId : Uuid) : Inserts orderId (lockEvent eventId) 0 :=
  inserts_bind_zero (inserts_selectForUpdate _ _) fun _ => inserts_require _ _

theorem inserts_lockSlot (event : Event) (cmd : RegisterCommand) :
    Inserts orderId (lockSlot event cmd) 0 := by
  rw [lockSlot]
  split
  · refine inserts_bind_zero (inserts_require _ _) fun slot => ?_
    refine inserts_bind_zero (inserts_selectForUpdate _ _) fun belongs => ?_
    exact inserts_bind_zero (inserts_refuseWhen _ _) fun _ => rfl
  · rfl

theorem inserts_ticketWindow (draw : Draw) (cmd : RegisterCommand) :
    Inserts orderId (ticketWindow draw cmd) 0 := by
  rw [ticketWindow]
  split
  · rfl
  · refine inserts_bind_zero (inserts_select _) fun window => ?_
    exact inserts_bind_zero (inserts_require _ _) fun t => inserts_refuseWhen _ _

theorem inserts_insertRegistration (env : Env) {r : Registration}
    (h : r.ofOrder orderId = true) : Inserts orderId (insertRegistration env r) 1 := by
  refine .inr ⟨env, r, 0, rfl, h, fun _ => rfl, rfl, fun v => ⟨fun hv => ?_, fun hv => ?_⟩⟩
  · simp [hv, Inserts]
  · simp [hv]

theorem inserts_armAfterSub (env : Env) (events : Db → Uuid → Bool) :
    Inserts orderId (armAfterSub env events) 0 := inserts_statement fun _ _ => ⟨rfl, rfl⟩

theorem inserts_armLeadRequest (env : Env) (eventId : Uuid) (trigger : LeadRule → Bool) :
    Inserts orderId (armLeadRequest env eventId trigger) 0 :=
  inserts_statement fun v s => by split <;> exact ⟨rfl, rfl⟩

theorem inserts_recordAudit (row : AuditRow) : Inserts orderId (recordAudit row) 0 :=
  inserts_statement fun _ _ => ⟨rfl, rfl⟩

theorem inserts_registerCore (env : Env) (draw : Draw) (cmd : RegisterCommand) {link : SaleLink}
    (h : link.saleOrderId = orderId) :
    Inserts orderId (registerCore env draw cmd (some link)) 1 := by
  refine inserts_bind_zero (inserts_lockEvent _) fun event => ?_
  refine inserts_bind_zero (inserts_refuseWhen _ _) fun _ => ?_
  refine inserts_bind_zero (inserts_lockSlot _ _) fun slotId => ?_
  refine inserts_bind_zero (inserts_ticketWindow _ _) fun _ => ?_
  refine inserts_bind_zero (inserts_select _) fun taken => ?_
  refine inserts_bind_zero (inserts_refuseWhen _ _) fun _ => ?_
  refine inserts_bind_zero (inserts_select _) fun orgAxis => ?_
  refine inserts_bind (n := 0) (inserts_insertRegistration env (by simp [bornRow,
    Registration.ofOrder, h])) fun _ => ?_
  refine inserts_bind_zero (inserts_onlyIf _ (inserts_armAfterSub _ _)) fun _ => ?_
  refine inserts_bind_zero (inserts_onlyIf _ (inserts_armLeadRequest _ _ _)) fun _ => ?_
  exact inserts_bind_zero (inserts_recordAudit _) fun _ => rfl

theorem inserts_mint (env : Env) {link : SaleLink} (h : link.saleOrderId = orderId)
    (specs : List RegisterCommand) (k : ℕ) : Inserts orderId (mint env link k specs) specs.length := by
  induction specs generalizing k with
  | nil => rfl
  | cons spec specs ih =>
    rw [List.length_cons, Nat.add_comm]
    exact inserts_bind (inserts_registerCore env _ spec h) fun _ => ih (k + 1)

theorem inserts_mintOrder (env : Env) (free : Bool) (specs : List RegisterCommand)
    (actor : Option Uuid) : Inserts orderId (mintOrder env orderId free specs actor) specs.length :=
  inserts_bind (n := 0) (inserts_mint env (show (bornLink orderId free).saleOrderId = orderId from
    rfl) specs 0) fun _ => rfl

theorem inserts_updateRegistrations {p : Registration → Bool} {f : Update Registration}
    (h : ∀ r, rowKey (f r) = rowKey r) : Inserts orderId (updateRegistrations p f) 0 :=
  inserts_statement fun _ _ => ⟨rowKeys_modify h, rfl⟩

theorem inserts_healOrder (env : Env) (free : Bool) (actor : Option Uuid) :
    Inserts orderId (healOrder env orderId free actor) 0 := by
  cases free with
  | true =>
    refine inserts_bind_zero (inserts_updateRegistrations fun _ => rfl) fun touched => ?_
    exact inserts_bind_zero (inserts_armAfterSub _ _) fun _ => rfl
  | false => exact inserts_bind_zero (inserts_updateRegistrations fun _ => rfl) fun touched => rfl

end programs

/-- A confirmed delivery of the order, apart from its specs. -/
structure Delivery where
  env : Env
  consumer : String
  deliveryId : String
  grandTotal : String
  actor : Option Uuid

def Delivery.key (d : Delivery) : InboxRow :=
  ⟨d.consumer, "confirmed" ++ ":" ++ d.deliveryId⟩

def Delivery.program (d : Delivery) (orderId : Uuid) (specs : List RegisterCommand) :
    Tx SeamOutcome :=
  onOrderConfirmed d.env d.consumer (some d.deliveryId) orderId d.grandTotal specs d.actor

def Delivery.body (d : Delivery) (orderId : Uuid) (specs : List RegisterCommand) :
    Tx SeamOutcome :=
  mintOrHeal d.env orderId (grandTotalIsZero d.grandTotal) specs d.actor

abbrev DeliverySession := Session Db Lock AuditRow EventError SeamOutcome

/-- The linked rows the delivery counted, once it has: its second statement reads them. -/
def counted (orderId : Uuid) (x : DeliverySession) : Option ℕ := x.seen[1]?.map (·.linked orderId)

/-- What is left to do after the snapshots `seen` and `k` inserted rows. -/
def Plan (d : Delivery) (orderId : Uuid) (specs : List RegisterCommand) (seen : List Db)
    (p : Tx SeamOutcome) (k : ℕ) : Prop :=
  match seen with
  | [] => p = d.program orderId specs ∧ k = 0
  | [_] => p = d.body orderId specs ∧ k = 0
  | _ :: v :: _ =>
    if v.linked orderId = 0 then ∃ m, k + m = specs.length ∧ Inserts orderId p m
    else k = 0 ∧ Inserts orderId p 0

/-- No key clashes with a row. -/
def Free (keys : List (Uuid × String × Option Uuid)) (rows : List Registration) : Prop :=
  ∀ k ∈ keys, ∀ r ∈ rows, keyClash k r = false

/-- An open delivery that has inserted `rows` on top of the committed database `s`. -/
structure Underway (d : Delivery) (orderId : Uuid) (specs : List RegisterCommand) (s : Db)
    (x : DeliverySession) (p : Tx SeamOutcome) (rows : List Registration) : Prop where
  plan : Plan d orderId specs x.seen p rows.length
  order : ∀ r ∈ rows, r.ofOrder orderId = true
  locked : ∀ r ∈ rows, .registration r.id ∈ x.locks ∧ .barcode r.barcode ∈ x.locks
  apart : rows.Pairwise (fun a b => clash a b = false)
  free : Free (rowKeys s) rows
  effect : ∀ t, Free (rowKeys t) rows → rowKeys (x.view t) = rowKeys t ++ rows.map rowKey
  inbox : ∀ t, (x.view t).seamInbox = if x.seen = [] then t.seamInbox else t.seamInbox.push d.key

section session

variable {d : Delivery} {orderId : Uuid} {specs : List RegisterCommand} {s t : Db}
  {x : DeliverySession} {p : Tx SeamOutcome} {rows : List Registration}
  {locks : Db → List Lock} {write : Db → Db → Db} {next : Db → Tx SeamOutcome}

/-- The committed database may change, as long as no key of it clashes with a staged row. -/
theorem Underway.recommit (h : Underway d orderId specs s x p rows) (hfree : Free (rowKeys t) rows) :
    Underway d orderId specs t x p rows := { h with free := hfree }

/-- A statement that inserts nothing. -/
theorem Underway.quiet {v : Db} (h : Underway d orderId specs s x p rows)
    (hplan : Plan d orderId specs (x.seen ++ [v]) (next v) rows.length)
    (hkeys : ∀ t, rowKeys (write v t) = rowKeys t)
    (hinbox : ∀ t, (write v (x.view t)).seamInbox = t.seamInbox.push d.key) :
    Underway d orderId specs s (x.stated locks write next v) (next v) rows where
  plan := hplan
  order := h.order
  locked r hr := ⟨List.mem_append_left _ (h.locked r hr).1, List.mem_append_left _ (h.locked r hr).2⟩
  apart := h.apart
  free := h.free
  effect t ht := by rw [Session.view_stated, hkeys, h.effect t ht]
  inbox t := by
    rw [Session.view_stated, hinbox, if_neg]
    simp [Session.stated]

/-- The statement that inserts `r`, which its snapshot accepts. -/
theorem Underway.insert {v : Db} {env : Env} {r : Registration} (hv : v = x.view s)
    (h : Underway d orderId specs s x p rows) (hseen : x.seen ≠ [])
    (hplan : Plan d orderId specs (x.seen ++ [v]) (next v) (rows.length + 1))
    (horder : r.ofOrder orderId = true)
    (hlocks : locks v = [.registration r.id, .barcode r.barcode])
    (hfits : insertable v env r = true) :
    Underway d orderId specs s (x.stated locks (insertWrite env r) next v) (next v)
      (rows ++ [r]) := by
  have haccepts : v.registrations.accepts r = true := by
    simp only [insertable, Bool.and_eq_true] at hfits
    exact hfits.2
  have hkeys := accepts_iff_rowKeys.mp haccepts
  rw [hv, h.effect s h.free] at hkeys
  have hrows : ∀ a ∈ rows, clash a r = false := fun a ha =>
    hkeys (rowKey a) (List.mem_append_right _ (List.mem_map_of_mem ha))
  constructor
  · rw [List.length_append]
    exact hplan
  · simpa [or_imp, forall_and, horder] using h.order
  · intro a ha
    rcases List.mem_append.mp ha with ha | ha
    · exact ⟨List.mem_append_left _ (h.locked a ha).1, List.mem_append_left _ (h.locked a ha).2⟩
    · rw [List.mem_singleton.mp ha]
      exact ⟨List.mem_append_right _ (by simp [hlocks]), List.mem_append_right _ (by simp [hlocks])⟩
  · exact List.pairwise_append.mpr ⟨h.apart, List.pairwise_singleton _ _, fun a ha b hb => by
      rw [List.mem_singleton.mp hb]
      exact hrows a ha⟩
  · intro k hk a ha
    rcases List.mem_append.mp ha with ha | ha
    · exact h.free k hk a ha
    · rw [List.mem_singleton.mp ha]
      exact hkeys k (List.mem_append_left _ hk)
  · intro t ht
    have hprefix : Free (rowKeys t) rows := fun k hk a ha => ht k hk a (List.mem_append_left _ ha)
    have heffect := h.effect t hprefix
    have hnew : (x.view t).registrations.accepts r = true := by
      rw [accepts_iff_rowKeys, heffect]
      intro k hk
      rcases List.mem_append.mp hk with hk | hk
      · exact ht k hk r (by simp)
      · obtain ⟨a, ha, rfl⟩ := List.mem_map.mp hk
        exact hrows a ha
    rw [Session.view_stated, insertWrite, if_pos hfits, rowKeys_push hnew, heffect, List.map_append,
      List.append_assoc]
    rfl
  · intro t
    have hinbox : (x.view t).seamInbox = t.seamInbox.push d.key := by
      rw [h.inbox, if_neg hseen]
    rw [Session.view_stated, if_neg (by simp [Session.stated]), ← hinbox, insertWrite]
    split <;> rfl

/-- A statement of a program that inserts `n` rows inserts none, or the first of them. -/
theorem inserts_statement_cases {n : ℕ} (h : Inserts orderId (.statement locks write next) n)
    (v : Db) :
    ((∀ t, rowKeys (write v t) = rowKeys t ∧ (write v t).seamInbox = t.seamInbox) ∧
      Inserts orderId (next v) n) ∨
    ∃ env r m, n = m + 1 ∧ r.ofOrder orderId = true ∧
      locks v = [.registration r.id, .barcode r.barcode] ∧ write = insertWrite env r ∧
      insertable v env r = true ∧ Inserts orderId (next v) m := by
  rcases h with ⟨hquiet, hnext⟩ | ⟨env, r, m, rfl, horder, hlocks, rfl, hnext⟩
  · exact .inl ⟨hquiet v, hnext v⟩
  · cases hv : insertable v env r with
    | true => exact .inr ⟨env, r, m, rfl, horder, hlocks v, rfl, hv, (hnext v).1 hv⟩
    | false =>
      obtain ⟨e, he⟩ := (hnext v).2 hv
      refine .inl ⟨fun t => by simp [insertWrite, hv], ?_⟩
      rw [he]
      trivial

theorem Underway.first_statement (h : Underway d orderId specs s x (.statement locks write next) rows)
    (hseen : x.seen = []) (hfresh : d.key ∉ s.seamInbox.rows) :
    Underway d orderId specs s (x.stated locks write next (x.view s)) (next (x.view s)) [] := by
  have hplan := h.plan
  rw [hseen] at hplan
  obtain ⟨hprogram, hlength⟩ := hplan
  obtain rfl := List.length_eq_zero_iff.mp hlength
  obtain ⟨rfl, rfl, rfl⟩ := Program.statement.inj (hprogram.trans (show d.program orderId specs =
    .statement (fun _ => [.inbox d.consumer d.key.externalId])
      (fun _ s => { s with seamInbox := s.seamInbox.push d.key })
      (fun v => if !v.seamInbox.accepts d.key then .done alreadyApplied
        else d.body orderId specs) from rfl))
  have hinbox : ∀ t, (x.view t).seamInbox = t.seamInbox := fun t => by rw [h.inbox, if_pos hseen]
  refine h.quiet ?_ (fun t => rfl) fun t => by simp only [hinbox]
  rw [hseen]
  refine ⟨?_, rfl⟩
  rw [hinbox, SeamDeliveries.accepts_of_not_mem hfresh]
  rfl

theorem Underway.count_statement {v₀ : Db}
    (h : Underway d orderId specs s x (.statement locks write next) rows) (hseen : x.seen = [v₀]) :
    Underway d orderId specs s (x.stated locks write next (x.view s)) (next (x.view s)) [] := by
  have hplan := h.plan
  rw [hseen] at hplan
  obtain ⟨hprogram, hlength⟩ := hplan
  obtain rfl := List.length_eq_zero_iff.mp hlength
  obtain ⟨rfl, rfl, rfl⟩ := Program.statement.inj (hprogram.trans (show d.body orderId specs =
    .statement (fun _ => []) (fun _ s => s)
      (fun v => if v.linked orderId == 0 then
        mintOrder d.env orderId (grandTotalIsZero d.grandTotal) specs d.actor
      else healOrder d.env orderId (grandTotalIsZero d.grandTotal) d.actor) from rfl))
  refine h.quiet ?_ (fun t => rfl) fun t => by rw [h.inbox, if_neg (by simp [hseen])]
  rw [hseen]
  simp only [List.cons_append, List.nil_append, Plan, List.length_nil]
  split
  · next hzero =>
    simp only [hzero]
    exact ⟨specs.length, Nat.zero_add _, inserts_mintOrder _ _ _ _⟩
  · next hpos =>
    have hfalse : ((x.view s).linked orderId == 0) = false := by simpa using hpos
    simp only [hfalse]
    exact ⟨trivial, inserts_healOrder _ _ _⟩

theorem Underway.later_statement {v₀ v₁ : Db} {rest : List Db}
    (h : Underway d orderId specs s x (.statement locks write next) rows)
    (hseen : x.seen = v₀ :: v₁ :: rest) : ∃ rows',
      Underway d orderId specs s (x.stated locks write next (x.view s)) (next (x.view s)) rows' := by
  have hplan := h.plan
  have hne : x.seen ≠ [] := by simp [hseen]
  have hinbox : ∀ t, (x.view t).seamInbox = t.seamInbox.push d.key := fun t => by
    rw [h.inbox, if_neg hne]
  simp only [hseen, Plan] at hplan
  have hnext : ∀ {k : ℕ}, (if v₁.linked orderId = 0 then ∃ m, k + m = specs.length ∧
      Inserts orderId (next (x.view s)) m else k = 0 ∧ Inserts orderId (next (x.view s)) 0) →
      Plan d orderId specs (x.seen ++ [x.view s]) (next (x.view s)) k := fun hk => by
    simpa only [hseen, List.cons_append, Plan] using hk
  by_cases hzero : v₁.linked orderId = 0
  · rw [if_pos hzero] at hplan
    obtain ⟨m, hm, hinserts⟩ := hplan
    rcases inserts_statement_cases hinserts (x.view s) with
      ⟨hquiet, hrest⟩ | ⟨env, r, k, rfl, horder, hlocks, rfl, hfits, hrest⟩
    · exact ⟨rows, h.quiet (hnext (by rw [if_pos hzero]; exact ⟨m, hm, hrest⟩))
        (fun t => (hquiet t).1) fun t => (hquiet _).2.trans (hinbox t)⟩
    · exact ⟨rows ++ [r], h.insert rfl hne
        (hnext (by rw [if_pos hzero]; exact ⟨k, by omega, hrest⟩)) horder hlocks hfits⟩
  · rw [if_neg hzero] at hplan
    rcases inserts_statement_cases hplan.2 (x.view s) with
      ⟨hquiet, hrest⟩ | ⟨env, r, k, hk, -⟩
    · exact ⟨rows, h.quiet (hnext (by rw [if_neg hzero]; exact ⟨hplan.1, hrest⟩))
        (fun t => (hquiet t).1) fun t => (hquiet _).2.trans (hinbox t)⟩
    · omega

/-- A record made outside the transaction changes nothing it has staged. -/
theorem Underway.noted {x' : DeliverySession} {n : AuditRow} {q : Tx SeamOutcome}
    (h : Underway d orderId specs s x p rows) (hp : p = .note n q ∨ p = .noteAfter n q)
    (hstaged : x'.staged = x.staged) (hlocks : x'.locks = x.locks) (hseen : x'.seen = x.seen)
    (hkeys : rowKeys t = rowKeys s) : Underway d orderId specs t x' q rows := by
  have hview : ∀ u, x'.view u = x.view u := fun u => by rw [Session.view, hstaged]; rfl
  have hinserts : ∀ m, Inserts orderId p m → Inserts orderId q m := fun m hm => by
    rcases hp with rfl | rfl <;> exact hm
  have hplan := h.plan
  refine ⟨?_, h.order, by rw [hlocks]; exact h.locked, h.apart, by rw [hkeys]; exact h.free,
    fun u hu => by rw [hview, h.effect u hu], fun u => by rw [hview, hseen, h.inbox]⟩
  rw [hseen]
  cases hs : x.seen with
  | nil =>
    rw [hs] at hplan
    rcases hp with rfl | rfl <;> cases hplan.1
  | cons v₀ later =>
    cases later with
    | nil =>
      rw [hs] at hplan
      rcases hp with rfl | rfl <;> cases hplan.1
    | cons v₁ rest =>
      simp only [hs, Plan] at hplan ⊢
      split at hplan
      · next hzero =>
        obtain ⟨m, hm, hins⟩ := hplan
        rw [if_pos hzero]
        exact ⟨m, hm, hinserts m hins⟩
      · next hpos =>
        rw [if_neg hpos]
        exact ⟨hplan.1, hinserts 0 hplan.2⟩

/-- A delivery at its end minted every spec, or healed. -/
theorem Underway.done {a : SeamOutcome} (h : Underway d orderId specs s x (.done a) rows) :
    x.seen ≠ [] ∧ (counted orderId x = some 0 ∧ rows.length = specs.length ∨
      (∃ n, counted orderId x = some (n + 1)) ∧ rows = []) := by
  have hplan := h.plan
  match hseen : x.seen with
  | [] =>
    rw [hseen] at hplan
    cases hplan.1
  | [v₀] =>
    rw [hseen] at hplan
    cases hplan.1
  | v₀ :: v₁ :: rest =>
    have hcounted : counted orderId x = some (v₁.linked orderId) := by simp [counted, hseen]
    simp only [hseen, Plan] at hplan
    refine ⟨by simp, ?_⟩
    by_cases hzero : v₁.linked orderId = 0
    · rw [if_pos hzero] at hplan
      obtain ⟨m, hm, hinserts⟩ := hplan
      obtain rfl : m = 0 := hinserts
      exact .inl ⟨by rw [hcounted, hzero], by omega⟩
    · rw [if_neg hzero] at hplan
      exact .inr ⟨⟨v₁.linked orderId - 1, by rw [hcounted, Nat.sub_add_cancel (by omega)]⟩,
        List.length_eq_zero_iff.mp hplan.1⟩

theorem foldl_absorb_keys (l : List AuditRow) (s : Db) :
    rowKeys (l.foldl Db.absorb s) = rowKeys s ∧ (l.foldl Db.absorb s).seamInbox = s.seamInbox := by
  rw [foldl_absorb]
  exact ⟨rfl, rfl⟩

/-- The commit puts the inserted rows of the order on the committed database. -/
theorem Underway.linked_commit (h : Underway d orderId specs s x p rows) :
    (x.after.foldl Db.absorb (x.view s)).linked orderId = s.linked orderId + rows.length := by
  rw [linked_eq_rowKeys, (foldl_absorb_keys _ _).1, h.effect s h.free, List.countP_append,
    ← linked_eq_rowKeys]
  congr 1
  rw [List.countP_map, List.countP_eq_length]
  exact fun r hr => h.order r hr

/-- Rows staged under exclusive locks do not clash. -/
theorem Underway.apart_of_exclusive {d' : Delivery} {x' : DeliverySession} {p' : Tx SeamOutcome}
    {rows' : List Registration} (h : Underway d orderId specs s x p rows)
    (h' : Underway d' orderId specs s x' p' rows') (hlocks : ∀ l ∈ x.locks, l ∉ x'.locks) :
    Free (rowKeys (x.after.foldl Db.absorb (x.view s))) rows' := by
  rw [(foldl_absorb_keys _ _).1, h.effect s h.free]
  intro k hk r hr
  rcases List.mem_append.mp hk with hk | hk
  · exact h'.free k hk r hr
  · obtain ⟨a, ha, rfl⟩ := List.mem_map.mp hk
    by_contra hclash
    simp only [keyClash, rowKey, Bool.not_eq_false, Bool.or_eq_true, beq_iff_eq] at hclash
    rcases hclash with hid | hbarcode
    · exact hlocks _ (h.locked a ha).1 (hid ▸ (h'.locked r hr).1)
    · exact hlocks _ (h.locked a ha).2 (hbarcode ▸ (h'.locked r hr).2)

end session

section run

variable {ι : Type}

abbrev DeliveryWorld (ι : Type) :=
  TransactionInterleavings.World ι Db Lock AuditRow EventError SeamOutcome

/-- The delivery is open and has counted no linked row. -/
def Minting (orderId : Uuid) (w : DeliveryWorld ι) (i : ι) : Prop :=
  (∃ p, (w.sessions i).phase = .running p) ∧ counted orderId (w.sessions i) = some 0

/-- The delivery has committed after it counted no linked row. -/
def Minted (orderId : Uuid) (w : DeliveryWorld ι) (i : ι) : Prop :=
  (∃ a, (w.sessions i).phase = .committed a) ∧ counted orderId (w.sessions i) = some 0

/-- The delivery has committed after it counted linked rows, by the heal branch. -/
def Healed (orderId : Uuid) (w : DeliveryWorld ι) (i : ι) : Prop :=
  (∃ a, (w.sessions i).phase = .committed a) ∧ ∃ n, counted orderId (w.sessions i) = some (n + 1)

/-- No delivery counts while another that counted none is open. -/
def CountsAlone (orderId : Uuid) (w : DeliveryWorld ι) (i : ι) : Prop :=
  (∃ p, (w.sessions i).phase = .running p) → (w.sessions i).seen.length = 1 →
    ∀ j, j ≠ i → ¬ Minting orderId w j

structure MintInvariant (ds : ι → Delivery) (orderId : Uuid) (specs : List RegisterCommand)
    (w : DeliveryWorld ι) : Prop where
  exclusive : w.Exclusive
  underway : ∀ i p, (w.sessions i).phase = .running p →
    ∃ rows, Underway (ds i) orderId specs w.committed (w.sessions i) p rows
  fresh : ∀ i p, (w.sessions i).phase = .running p → (ds i).key ∉ w.committed.seamInbox.rows
  ended : ∀ i a, (w.sessions i).phase = .committed a → ∃ n, counted orderId (w.sessions i) = some n
  alone : ∀ i j, Minting orderId w i → Minting orderId w j → i = j
  before : ∀ i, Minting orderId w i → w.committed.linked orderId = 0
  once : specs ≠ [] → ∀ i j, Minted orderId w i → Minted orderId w j → i = j
  minted : ∀ i, Minted orderId w i → w.committed.linked orderId = specs.length
  unminted : (∀ i, ¬ Minted orderId w i) → w.committed.linked orderId = 0
  healed : ∀ i n, counted orderId (w.sessions i) = some (n + 1) → ∃ j, Minted orderId w j

variable {ds : ι → Delivery} {orderId : Uuid} {specs : List RegisterCommand} {w : DeliveryWorld ι}

theorem mintInvariant_start {s : Db} (hlinked : s.linked orderId = 0)
    (hfresh : ∀ i, (ds i).key ∉ s.seamInbox.rows) :
    MintInvariant ds orderId specs (start s fun i => (ds i).program orderId specs) where
  exclusive := World.exclusive_start _ _
  underway i p hp := by
    obtain rfl : (ds i).program orderId specs = p := by simpa [start] using hp
    refine ⟨[], ⟨rfl, rfl⟩, by simp, by simp, .nil, fun _ _ r hr => absurd hr (by simp), ?_, ?_⟩
    · intro t _
      simp [start, Session.view]
    · intro t
      simp [start, Session.view]
  fresh i _ _ := hfresh i
  ended i a h := by simp [start] at h
  alone i j h := by simp [Minting, counted, start] at h
  before i h := by simp [Minting, counted, start] at h
  once _ i j h := by simp [Minted, start] at h
  minted i h := by simp [Minted, start] at h
  unminted _ := hlinked
  healed i n h := by simp [counted, start] at h

section step

variable [DecidableEq ι] {i : ι} {s : Db} {x : DeliverySession} {p p' : Tx SeamOutcome}

/-- The world with session `i` replaced and the committed database changed. -/
def moved (w : DeliveryWorld ι) (i : ι) (x : DeliverySession) (s : Db) : DeliveryWorld ι :=
  { w.set i x with committed := s }

@[simp] theorem moved_self : (moved w i x s).sessions i = x := by simp [moved]

@[simp] theorem moved_of_ne {j : ι} (h : j ≠ i) :
    (moved w i x s).sessions j = w.sessions j := by simp [moved, Function.update_of_ne h]

@[simp] theorem moved_committed : (moved w i x s).committed = s := rfl

theorem minting_moved_of_ne {j : ι} (h : j ≠ i) :
    Minting orderId (moved w i x s) j ↔ Minting orderId w j := by
  simp only [Minting, moved_of_ne h]

theorem minted_moved_of_ne {j : ι} (h : j ≠ i) :
    Minted orderId (moved w i x s) j ↔ Minted orderId w j := by
  simp only [Minted, moved_of_ne h]

omit [DecidableEq ι] in
theorem not_minted_of_running (h : (w.sessions i).phase = .running p) : ¬ Minted orderId w i := by
  rintro ⟨⟨a, ha⟩, -⟩
  rw [h] at ha
  cases ha

/-- A step after which the delivery is still open. -/
theorem MintInvariant.running (h : MintInvariant ds orderId specs w)
    (hp : (w.sessions i).phase = .running p) (hx : x.phase = .running p')
    (hunder : ∃ rows, Underway (ds i) orderId specs s x p' rows)
    (hkeys : rowKeys s = rowKeys w.committed) (hinbox : s.seamInbox = w.committed.seamInbox)
    (hexclusive : (moved w i x s).Exclusive)
    (hcount : counted orderId x = counted orderId (w.sessions i) ∨
      counted orderId x = some (w.committed.linked orderId) ∧ ∀ j, j ≠ i → ¬ Minting orderId w j) :
    MintInvariant ds orderId specs (moved w i x s) := by
  have hlinked : s.linked orderId = w.committed.linked orderId := by
    rw [linked_eq_rowKeys, hkeys, ← linked_eq_rowKeys]
  have hminted : ∀ j, Minted orderId (moved w i x s) j ↔ Minted orderId w j := fun j => by
    by_cases hj : j = i
    · subst hj
      exact iff_of_false (not_minted_of_running (by simpa using hx)) (not_minted_of_running hp)
    · exact minted_moved_of_ne hj
  have hown : Minting orderId (moved w i x s) i → Minting orderId w i ∨
      w.committed.linked orderId = 0 ∧ ∀ j, j ≠ i → ¬ Minting orderId w j := by
    rintro ⟨-, hzero⟩
    rw [moved_self] at hzero
    rcases hcount with hsame | ⟨hread, hsolo⟩
    · exact .inl ⟨⟨p, hp⟩, hsame ▸ hzero⟩
    · exact .inr ⟨Option.some.inj (hread.symm.trans hzero), hsolo⟩
  constructor
  case exclusive =>
    exact hexclusive
  case underway =>
    intro j q hq
    by_cases hj : j = i
    · subst hj
      rw [moved_self] at hq ⊢
      obtain rfl : p' = q := by rw [hx] at hq; exact Phase.running.inj hq
      exact hunder
    · rw [moved_of_ne hj] at hq ⊢
      obtain ⟨rows, hrows⟩ := h.underway j q hq
      refine ⟨rows, hrows.recommit ?_⟩
      rw [moved_committed, hkeys]
      exact hrows.free
  case fresh =>
    intro j q hq
    rw [moved_committed, hinbox]
    by_cases hj : j = i
    · subst hj
      exact h.fresh j p hp
    · exact h.fresh j q (by rwa [moved_of_ne hj] at hq)
  case ended =>
    intro j a ha
    by_cases hj : j = i
    · subst hj
      rw [moved_self, hx] at ha
      cases ha
    · rw [moved_of_ne hj] at ha ⊢
      exact h.ended j a ha
  case alone =>
    intro j k hj hk
    by_cases hji : j = i <;> by_cases hki : k = i
    · rw [hji, hki]
    · subst hji
      rw [minting_moved_of_ne hki] at hk
      rcases hown hj with hold | ⟨-, hsolo⟩
      · exact h.alone j k hold hk
      · exact absurd hk (hsolo k hki)
    · subst hki
      rw [minting_moved_of_ne hji] at hj
      rcases hown hk with hold | ⟨-, hsolo⟩
      · exact h.alone j k hj hold
      · exact absurd hj (hsolo j hji)
    · rw [minting_moved_of_ne hji] at hj
      rw [minting_moved_of_ne hki] at hk
      exact h.alone j k hj hk
  case before =>
    intro j hj
    rw [moved_committed, hlinked]
    by_cases hji : j = i
    · subst hji
      rcases hown hj with hold | ⟨hzero, -⟩
      · exact h.before j hold
      · exact hzero
    · exact h.before j ((minting_moved_of_ne hji).mp hj)
  case once =>
    intro hspecs j k hj hk
    exact h.once hspecs j k ((hminted j).mp hj) ((hminted k).mp hk)
  case minted =>
    intro j hj
    rw [moved_committed, hlinked]
    exact h.minted j ((hminted j).mp hj)
  case unminted =>
    intro hnone
    rw [moved_committed, hlinked]
    exact h.unminted fun j hj => hnone j ((hminted j).mpr hj)
  case healed =>
    intro j n hn
    have hex : ∃ k, Minted orderId w k := by
      by_cases hji : j = i
      · subst hji
        rw [moved_self] at hn
        rcases hcount with hsame | ⟨hread, -⟩
        · exact h.healed j n (hsame ▸ hn)
        · by_contra hnone
          have hzero := h.unminted fun k hk => hnone ⟨k, hk⟩
          rw [hread, hzero] at hn
          cases hn
      · exact h.healed j n (by rwa [moved_of_ne hji] at hn)
    obtain ⟨k, hk⟩ := hex
    exact ⟨k, (hminted k).mpr hk⟩

theorem counted_ended (x : DeliverySession) (phase : Phase Db Lock AuditRow EventError SeamOutcome) :
    counted orderId (x.ended phase) = counted orderId x := rfl

/-- A delivery that ends is open no more; the others keep what they staged. -/
theorem MintInvariant.others (h : MintInvariant ds orderId specs w)
    (hdistinct : ∀ j, j ≠ i → (ds j).key ≠ (ds i).key)
    (hp : (w.sessions i).phase = .running p) (hx : ∀ q, x.phase ≠ .running q)
    (hs : s = w.committed ∨ ∃ rows, Underway (ds i) orderId specs w.committed (w.sessions i) p rows ∧
      s = (w.sessions i).after.foldl Db.absorb ((w.sessions i).view w.committed)) :
    (∀ j q, ((moved w i x s).sessions j).phase = .running q →
      ∃ rows, Underway (ds j) orderId specs s ((moved w i x s).sessions j) q rows) ∧
    (∀ j q, ((moved w i x s).sessions j).phase = .running q →
      (ds j).key ∉ s.seamInbox.rows) := by
  have hother : ∀ j q, ((moved w i x s).sessions j).phase = .running q →
      j ≠ i ∧ (w.sessions j).phase = .running q := fun j q hq => by
    by_cases hj : j = i
    · subst hj
      exact absurd (by simpa using hq) (hx q)
    · exact ⟨hj, by rwa [moved_of_ne hj] at hq⟩
  constructor
  · intro j q hq
    obtain ⟨hj, hq⟩ := hother j q hq
    obtain ⟨rows', hrows'⟩ := h.underway j q hq
    rw [moved_of_ne hj]
    refine ⟨rows', hrows'.recommit ?_⟩
    rcases hs with rfl | ⟨rows, hrows, rfl⟩
    · exact hrows'.free
    · exact hrows.apart_of_exclusive hrows' (h.exclusive i j (Ne.symm hj))
  · intro j q hq
    obtain ⟨hj, hq⟩ := hother j q hq
    have hfresh := h.fresh j q hq
    rcases hs with rfl | ⟨rows, hrows, rfl⟩
    · exact hfresh
    · rw [(foldl_absorb_keys _ _).2, hrows.inbox]
      split
      · exact hfresh
      · rw [SeamDeliveries.mem_push_iff]
        rintro (hmem | heq)
        · exact hfresh hmem
        · exact hdistinct j hj heq

theorem MintInvariant.rollback (h : MintInvariant ds orderId specs w)
    (hdistinct : ∀ j, j ≠ i → (ds j).key ≠ (ds i).key)
    (hp : (w.sessions i).phase = .running p) {e : EventError}
    (hexclusive : (moved w i ((w.sessions i).ended (.rolledBack e)) w.committed).Exclusive) :
    MintInvariant ds orderId specs
      (moved w i ((w.sessions i).ended (.rolledBack e)) w.committed) := by
  have hothers := h.others hdistinct hp (x := (w.sessions i).ended (.rolledBack e))
    (fun q hq => by cases hq) (.inl rfl)
  have hminted : ∀ j, Minted orderId (moved w i ((w.sessions i).ended (.rolledBack e)) w.committed) j ↔
      Minted orderId w j := fun j => by
    by_cases hj : j = i
    · subst hj
      refine iff_of_false ?_ (not_minted_of_running hp)
      rintro ⟨⟨a, ha⟩, -⟩
      rw [moved_self] at ha
      cases ha
    · exact minted_moved_of_ne hj
  have hminting : ∀ j, Minting orderId
      (moved w i ((w.sessions i).ended (.rolledBack e)) w.committed) j → Minting orderId w j := by
    intro j hj
    by_cases hji : j = i
    · subst hji
      obtain ⟨⟨q, hq⟩, -⟩ := hj
      rw [moved_self] at hq
      cases hq
    · exact (minting_moved_of_ne hji).mp hj
  constructor
  case exclusive =>
    exact hexclusive
  case underway =>
    exact hothers.1
  case fresh =>
    exact hothers.2
  case ended =>
    intro j a ha
    by_cases hj : j = i
    · subst hj
      rw [moved_self] at ha
      cases ha
    · rw [moved_of_ne hj] at ha ⊢
      exact h.ended j a ha
  case alone =>
    exact fun j k hj hk => h.alone j k (hminting j hj) (hminting k hk)
  case before =>
    exact fun j hj => h.before j (hminting j hj)
  case once =>
    exact fun hspecs j k hj hk => h.once hspecs j k ((hminted j).mp hj) ((hminted k).mp hk)
  case minted =>
    exact fun j hj => h.minted j ((hminted j).mp hj)
  case unminted =>
    exact fun hnone => h.unminted fun j hj => hnone j ((hminted j).mpr hj)
  case healed =>
    intro j n hn
    have hold : counted orderId (w.sessions j) = some (n + 1) := by
      by_cases hji : j = i
      · subst hji
        rwa [moved_self, counted_ended] at hn
      · rwa [moved_of_ne hji] at hn
    obtain ⟨k, hk⟩ := h.healed j n hold
    exact ⟨k, (hminted k).mpr hk⟩

theorem MintInvariant.commit (h : MintInvariant ds orderId specs w)
    (hdistinct : ∀ j, j ≠ i → (ds j).key ≠ (ds i).key) {a : SeamOutcome}
    (hp : (w.sessions i).phase = .running (.done a))
    (hs : s = (w.sessions i).after.foldl Db.absorb ((w.sessions i).view w.committed))
    (hx : x = (w.sessions i).ended (.committed a))
    (hexclusive : (moved w i x s).Exclusive) : MintInvariant ds orderId specs (moved w i x s) := by
  obtain ⟨rows, hrows⟩ := h.underway i _ hp
  have hphase : x.phase = .committed a := by rw [hx]; rfl
  have hcounted : counted orderId x = counted orderId (w.sessions i) := by
    rw [hx, counted_ended]
  have hothers := h.others hdistinct hp (x := x) (fun q hq => by rw [hphase] at hq; cases hq)
    (.inr ⟨rows, hrows, hs⟩)
  have hlinked : s.linked orderId = w.committed.linked orderId + rows.length := by
    rw [hs, hrows.linked_commit]
  have hminting : ∀ j, Minting orderId (moved w i x s) j → j ≠ i ∧ Minting orderId w j := by
    intro j hj
    have hji : j ≠ i := by
      rintro rfl
      obtain ⟨⟨q, hq⟩, -⟩ := hj
      rw [moved_self, hphase] at hq
      cases hq
    exact ⟨hji, (minting_moved_of_ne hji).mp hj⟩
  have hcounts : ∀ j, counted orderId ((moved w i x s).sessions j) =
      counted orderId (w.sessions j) := fun j => by
    by_cases hji : j = i
    · subst hji
      rw [moved_self, hcounted]
    · rw [moved_of_ne hji]
  have hkept : ∀ j, Minted orderId w j → Minted orderId (moved w i x s) j := fun j hj => by
    have hji : j ≠ i := by
      rintro rfl
      exact not_minted_of_running hp hj
    exact (minted_moved_of_ne hji).mpr hj
  have hended : ∀ j b, ((moved w i x s).sessions j).phase = .committed b →
      ∃ n, counted orderId ((moved w i x s).sessions j) = some n := by
    intro j b hb
    rw [hcounts]
    by_cases hji : j = i
    · subst hji
      rcases hrows.done.2 with ⟨hzero, -⟩ | ⟨⟨n, hn⟩, -⟩
      · exact ⟨0, hzero⟩
      · exact ⟨n + 1, hn⟩
    · exact h.ended j b (by rwa [moved_of_ne hji] at hb)
  have hhealed : ∀ j n, counted orderId ((moved w i x s).sessions j) = some (n + 1) →
      ∃ k, Minted orderId (moved w i x s) k := fun j n hn => by
    obtain ⟨k, hk⟩ := h.healed j n (by rwa [hcounts] at hn)
    exact ⟨k, hkept k hk⟩
  have halone : ∀ j k, Minting orderId (moved w i x s) j → Minting orderId (moved w i x s) k →
      j = k := fun j k hj hk => h.alone j k (hminting j hj).2 (hminting k hk).2
  rcases hrows.done.2 with ⟨hzero, hlength⟩ | ⟨⟨n, hn⟩, rfl⟩
  · have hwas : Minting orderId w i := ⟨⟨_, hp⟩, hzero⟩
    have hbefore := h.before i hwas
    have hnow : Minted orderId (moved w i x s) i := by
      refine ⟨⟨a, ?_⟩, ?_⟩
      · rw [moved_self, hphase]
      · rw [moved_self, hcounted, hzero]
    have honly : specs ≠ [] → ∀ j, Minted orderId (moved w i x s) j → j = i := by
      intro hspecs j hj
      by_contra hji
      have hold := h.minted j ((minted_moved_of_ne hji).mp hj)
      rw [hbefore] at hold
      exact hspecs (List.length_eq_zero_iff.mp hold.symm)
    refine ⟨hexclusive, hothers.1, hothers.2, hended, halone, ?_, ?_, ?_, ?_, hhealed⟩
    · intro j hj
      exact absurd (h.alone j i (hminting j hj).2 hwas) (hminting j hj).1
    · intro hspecs j k hj hk
      rw [honly hspecs j hj, honly hspecs k hk]
    · intro j _
      rw [moved_committed, hlinked, hbefore, hlength, Nat.zero_add]
    · exact fun hnone => absurd hnow (hnone i)
  · have hminted : ∀ j, Minted orderId (moved w i x s) j → Minted orderId w j := fun j hj => by
      have hji : j ≠ i := by
        rintro rfl
        have hzero := hj.2
        rw [hcounts, hn] at hzero
        cases hzero
      exact (minted_moved_of_ne hji).mp hj
    rw [List.length_nil, Nat.add_zero] at hlinked
    refine ⟨hexclusive, hothers.1, hothers.2, hended, halone, ?_, ?_, ?_, ?_, hhealed⟩
    · intro j hj
      rw [moved_committed, hlinked]
      exact h.before j (hminting j hj).2
    · exact fun hspecs j k hj hk => h.once hspecs j k (hminted j hj) (hminted k hk)
    · intro j hj
      rw [moved_committed, hlinked]
      exact h.minted j (hminted j hj)
    · intro hnone
      rw [moved_committed, hlinked]
      exact h.unminted fun j hj => hnone j (hkept j hj)

/-- Every step at which a delivery counts alone keeps the invariant. -/
theorem mintInvariant_step {w' : DeliveryWorld ι}
    (hdistinct : ∀ j k, j ≠ k → (ds j).key ≠ (ds k).key)
    (h : MintInvariant ds orderId specs w) (halone : CountsAlone orderId w i)
    (hstep : World.Step Db.absorb w i w') : MintInvariant ds orderId specs w' := by
  have hexclusive := World.exclusive_step h.exclusive hstep
  have hdistinct' : ∀ j, j ≠ i → (ds j).key ≠ (ds i).key := fun j hj => hdistinct j i hj
  cases hstep with
  | stays => exact h
  | commit phase => exact h.commit hdistinct' phase rfl rfl hexclusive
  | rollback phase => exact h.rollback hdistinct' phase hexclusive
  | note phase =>
    obtain ⟨rows, hrows⟩ := h.underway i _ phase
    exact h.running phase rfl ⟨rows, hrows.noted (.inl rfl) rfl rfl rfl rfl⟩ rfl rfl hexclusive
      (.inl rfl)
  | noteAfter phase =>
    obtain ⟨rows, hrows⟩ := h.underway i _ phase
    exact h.running phase rfl ⟨rows, hrows.noted (.inr rfl) rfl rfl rfl rfl⟩ rfl rfl hexclusive
      (.inl rfl)
  | @statement locks write next phase granted =>
    obtain ⟨rows, hrows⟩ := h.underway i _ phase
    match hseen : (w.sessions i).seen with
    | [] =>
      refine h.running phase rfl ⟨[], hrows.first_statement hseen (h.fresh i _ phase)⟩ rfl rfl
        hexclusive (.inl ?_)
      simp [counted, Session.stated, hseen]
    | [v₀] =>
      have hnone := hrows.plan
      rw [hseen] at hnone
      obtain rfl := List.length_eq_zero_iff.mp hnone.2
      refine h.running phase rfl ⟨[], hrows.count_statement hseen⟩ rfl rfl hexclusive
        (.inr ⟨?_, halone ⟨_, phase⟩ (by rw [hseen]; rfl)⟩)
      have hkeys := hrows.effect w.committed hrows.free
      rw [List.map_nil, List.append_nil] at hkeys
      simp [counted, Session.stated, hseen, linked_eq_rowKeys, hkeys]
    | v₀ :: v₁ :: rest =>
      obtain ⟨rows', hrows'⟩ := hrows.later_statement hseen
      refine h.running phase rfl ⟨rows', hrows'⟩ rfl rfl hexclusive (.inl ?_)
      simp [counted, Session.stated, hseen]

end step

end run

section deliveries

variable {ι : Type} [Fintype ι] [DecidableEq ι] {ds : ι → Delivery} {orderId : Uuid}
  {specs : List RegisterCommand}

/-- The deliveries after a schedule of their steps. -/
def deliver (ds : ι → Delivery) (orderId : Uuid) (specs : List RegisterCommand) (s : Db)
    (schedule : List ι) : DeliveryWorld ι :=
  schedule.foldl (World.step Db.absorb) (start s fun i => (ds i).program orderId specs)

theorem key_ne {d d' : Delivery} (h : d.deliveryId ≠ d'.deliveryId) : d.key ≠ d'.key := by
  intro hkey
  refine h (String.ext ?_)
  have htext := congrArg (fun k => k.externalId.toList) hkey
  simpa [Delivery.key] using htext

/-- When no delivery counts while another that counted none is open: at most one delivery
mints and the other committed ones heal; once any has committed the order owns one row for
each spec, and when none has it owns none. -/
theorem minted_once {s : Db} (hlinked : s.linked orderId = 0)
    (hids : ∀ i j, i ≠ j → (ds i).deliveryId ≠ (ds j).deliveryId)
    (hfresh : ∀ i, (ds i).key ∉ s.seamInbox.rows) {schedule : List ι}
    (hrun : Along (World.step Db.absorb) (CountsAlone orderId)
      (start s fun i => (ds i).program orderId specs) schedule) :
    (specs ≠ [] → ∀ i j, Minted orderId (deliver ds orderId specs s schedule) i →
      Minted orderId (deliver ds orderId specs s schedule) j → i = j) ∧
    (∀ i a, ((deliver ds orderId specs s schedule).sessions i).phase = .committed a →
      (Minted orderId (deliver ds orderId specs s schedule) i ∨
        Healed orderId (deliver ds orderId specs s schedule) i) ∧
      (deliver ds orderId specs s schedule).committed.linked orderId = specs.length) ∧
    ((∀ i a, ((deliver ds orderId specs s schedule).sessions i).phase ≠ .committed a) →
      (deliver ds orderId specs s schedule).committed.linked orderId = 0) := by
  have hinv : MintInvariant ds orderId specs (deliver ds orderId specs s schedule) :=
    (hrun.throughout (mintInvariant_start hlinked hfresh) fun w i h halone =>
      mintInvariant_step (fun j k hjk => key_ne (hids j k hjk)) h halone
        (World.step_cases Db.absorb w i)).last
  refine ⟨hinv.once, fun i a ha => ?_, fun hnone => ?_⟩
  · obtain ⟨n, hn⟩ := hinv.ended i a ha
    cases n with
    | zero => exact ⟨.inl ⟨⟨a, ha⟩, hn⟩, hinv.minted i ⟨⟨a, ha⟩, hn⟩⟩
    | succ n =>
      obtain ⟨j, hj⟩ := hinv.healed i n hn
      exact ⟨.inr ⟨⟨a, ha⟩, n, hn⟩, hinv.minted j hj⟩
  · exact hinv.unminted fun i ⟨⟨a, ha⟩, _⟩ => hnone i a ha

end deliveries

section sample

instance {ι : Type} (w : DeliveryWorld ι) (i : ι) : Decidable (Minting 7 w i) :=
  inferInstanceAs (Decidable (_ ∧ _))

instance {ι : Type} (w : DeliveryWorld ι) (i : ι) : Decidable (Minted 7 w i) :=
  inferInstanceAs (Decidable (_ ∧ _))

instance {ι : Type} [Fintype ι] [DecidableEq ι] (w : DeliveryWorld ι) (i : ι) :
    Decidable (CountsAlone 7 w i) := inferInstanceAs (Decidable (_ → _ → _))

/-- Two deliveries of order 7 under the ids "a" and "b". -/
def twoDeliveries (i : Fin 2) : Delivery :=
  ⟨.counting (10 * (i + 1)), "events", if i = 0 then "a" else "b", "100", none⟩

def inTurn : List (Fin 2) := List.replicate 12 0 ++ List.replicate 6 1

/-- Both count before either commits. -/
def bothCount : List (Fin 2) := [0, 0, 1, 1] ++ List.replicate 10 0 ++ List.replicate 10 1

theorem minted_once_inTurn :
    (Minted 7 (deliver twoDeliveries 7 [ann] oneSeat inTurn) 1 →
      Minted 7 (deliver twoDeliveries 7 [ann] oneSeat inTurn) 0 → (1 : Fin 2) = 0) ∧
    (deliver twoDeliveries 7 [ann] oneSeat inTurn).committed.linked 7 = [ann].length := by
  have hrun : Along (World.step Db.absorb) (CountsAlone 7)
      (start oneSeat fun i => (twoDeliveries i).program 7 [ann]) inTurn := by decide
  have honce := minted_once (s := oneSeat) (by decide) (by decide) (by decide) hrun
  have hcommitted : ∃ a, ((deliver twoDeliveries 7 [ann] oneSeat inTurn).sessions 0).phase =
      .committed a := by decide
  obtain ⟨a, ha⟩ := hcommitted
  exact ⟨honce.1 (by decide) 1 0, (honce.2.1 0 a ha).2⟩

/-- Both deliveries commit as mints and the order of one spec owns two rows. -/
theorem bothCount_mints_twice :
    Minted 7 (deliver twoDeliveries 7 [ann] openGig bothCount) 0 ∧
    Minted 7 (deliver twoDeliveries 7 [ann] openGig bothCount) 1 ∧
    (deliver twoDeliveries 7 [ann] openGig bothCount).committed.linked 7 = 2 ∧
    ¬ (deliver twoDeliveries 7 [ann] openGig bothCount).committed.linked 7 = [ann].length := by
  decide

end sample

end BackboneEvents.MintInterleavings
