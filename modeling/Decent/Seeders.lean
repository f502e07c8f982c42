import Decent.Settings

/-!
Seeders and what they have of the contents. A seeder gets his statistics when he first offers
space; whoever has a part of a content, or has proved that he keeps it, is a seeder. From this
it can be read off when a proof of custody ends the process, and when the parts of a content
that was accepted are with the seeders it names.
-/
namespace Decent.Money
open Throwing

/-! ### Who is a seeder -/

/-- What every run of the source keeps of the seeders. -/
structure Registered (L : Ledger) : Prop where
  counted : ∀ {p}, (L.seeders.find? p).isSome → (L.statistics.find? p).isSome
  space : ∀ {p so}, L.seeders.find? p = some so → so.free_space < 2^64
  parts : ∀ {id c}, L.contents.find? id = some c → ∀ {p}, (c.key_parts.find? p).isSome → (L.seeders.find? p).isSome
  proofs : ∀ {id c}, L.contents.find? id = some c → ∀ {p}, (c.last_proof.find? p).isSome → (L.seeders.find? p).isSome
  simplified : ∀ {id c}, L.contents.find? id = some c → c.key_parts.rows = [] → ∀ p, c.last_proof.find? p = none

/-- No seeder is lost, and a content has what another had before. -/
theorem Registered.carry {L L' : Ledger} (registered : Registered L)
    (counted : ∀ {p}, (L'.seeders.find? p).isSome → (L'.statistics.find? p).isSome)
    (space : ∀ {p so}, L'.seeders.find? p = some so → so.free_space < 2^64)
    (seeders : ∀ {p}, (L.seeders.find? p).isSome → (L'.seeders.find? p).isSome)
    (contents : ∀ {id c'}, L'.contents.find? id = some c' → ∃ k c, L.contents.find? k = some c ∧
      c'.key_parts = c.key_parts ∧ c'.last_proof = c.last_proof) : Registered L' where
  counted := counted
  space := space
  parts found _ held := by
    obtain ⟨k,c,found,parts,-⟩ := contents found
    exact seeders (registered.parts found (parts ▸ held))
  proofs found _ held := by
    obtain ⟨k,c,found,-,proofs⟩ := contents found
    exact seeders (registered.proofs found (proofs ▸ held))
  simplified found none := by
    obtain ⟨k,c,found,parts,proofs⟩ := contents found
    rw [proofs]
    exact registered.simplified found (parts ▸ none)

def Registering (L L' : Ledger) : Prop := Registered L → Registered L'

theorem Registering.of_eq {L L' : Ledger} (contents : L'.contents = L.contents) (seeders : L'.seeders = L.seeders)
    (statistics : L'.statistics = L.statistics) : Registering L L' := by
  intro registered
  refine registered.carry ?_ ?_ ?_ ?_
  · rw [seeders,statistics]
    exact registered.counted
  · rw [seeders]
    exact registered.space
  · rw [seeders]
    exact id
  · rw [contents]
    exact fun found => ⟨_,_,found,rfl,rfl⟩

instance : Composes Registering where
  refl _ := id
  trans first second := second ∘ first

instance : Counting Registering where
  counted L p so known := by
    intro registered
    refine registered.carry ?_ registered.space id fun found => ⟨_,_,found,rfl,rfl⟩
    intro q here
    have old := registered.counted here
    show ((L.statistics.put p so).find? q).isSome
    rw [Table.find?_put]
    split
    · rfl
    · exact old

theorem registering_update (L : Ledger) (id : Nat) {f : Content → Content}
    (same : ∀ c, (f c).key_parts = c.key_parts ∧ (f c).last_proof = c.last_proof) : Registering L (L.with_content id f) := by
  intro registered
  refine registered.carry registered.counted registered.space (fun here => here) fun {k c'} found => ?_
  have found : (L.contents.update id f).find? k = some c' := found
  rw [Index.find?_update] at found
  split at found
  case isTrue here =>
    obtain ⟨c,before,rfl⟩ := Option.map_eq_some_iff.mp found
    exact ⟨id,c,before,same c⟩
  case isFalse => exact ⟨k,c',found,rfl,rfl⟩

theorem within_registering {id : Nat} {f : Content → Content}
    (same : ∀ c, (f c).key_parts = c.key_parts ∧ (f c).last_proof = c.last_proof) :
    Within Registering (modify_content id f) := .modify fun L => registering_update L id same

instance : Noting Registering where
  permissions _ _ := .of_eq rfl rfl rfl
  subscription _ _ _ _ := .of_eq rfl rfl rfl

instance : Describing Registering where
  content L id _ incidental := registering_update L id fun c => ⟨incidental.key_parts c,incidental.last_proof c⟩

instance : Logging Registering where
  applied _ _ _ := .of_eq rfl rfl rfl

instance : Accounting Registering where
  publishing _ _ := .of_eq rfl rfl rfl

instance : Pooling Registering where
  dynamic _ _ _ := .of_eq rfl rfl rfl

instance : Crediting Registering where
  balances _ _ := .of_eq rfl rfl rfl
  vestings _ _ := .of_eq rfl rfl rfl
  miners _ _ := .of_eq rfl rfl rfl

instance : Purchasing Registering where
  buyings _ _ := .of_eq rfl rfl rfl
  payments _ _ := .of_eq rfl rfl rfl

instance : Rewarding Registering where
  rewards _ _ _ := .of_eq rfl rfl rfl

instance : Enrolling Registering where
  accounts _ _ := .of_eq rfl rfl rfl
  subscriptions _ _ := .of_eq rfl rfl rfl

instance : Creating Registering where
  asset _ _ := .of_eq rfl rfl rfl

instance : Scheduling Registering where
  properties _ _ := .of_eq rfl rfl rfl
  parameters _ _ _ := .of_eq rfl rfl rfl

instance (o : ContentCancellationOperation) : Within Registering (content_cancellation_apply o) := by
  unfold content_cancellation_apply
  exact .andThen fun _ => .andThen fun _ => within_registering fun _ => ⟨rfl,rfl⟩

instance (id : Nat) (content : Content) : Within Registering (content_expire id content) := by
  have emptied : Within Registering (modify_content id fun co =>
      { co with publishing_fee_escrow := { co.publishing_fee_escrow with amount := 0 } }) :=
    within_registering fun _ => ⟨rfl,rfl⟩
  have pushed : Within Registering (push_applied_operation
      (.return_escrow_submission content.author content.publishing_fee_escrow id)) := .modify fun _ => .of_eq rfl rfl rfl
  unfold content_expire
  infer_instance

instance : Within Registering reset_seeding_stats := by
  refine .modify fun L registered => registered.carry ?_ registered.space id fun found => ⟨_,_,found,rfl,rfl⟩
  intro p here
  show ((L.statistics.mapValues _).find? p).isSome
  rw [Table.find?_mapValues,Option.isSome_map]
  exact registered.counted here

/-! ### A first submission -/

/-- The seeders that are given a part. -/
theorem pair_key_parts_isSome {seeders : List AccountId} : ∀ {parts : List Nat} {t : Table AccountId Nat} {p : AccountId},
    ((pair_key_parts seeders parts t).find? p).isSome → p ∈ seeders ∨ (t.find? p).isSome := by
  induction seeders with
  | nil => exact fun held => .inr held
  | cons seeder rest ih =>
    intro parts t p held
    cases parts with
    | nil => exact .inr held
    | cons part parts =>
      rcases ih held with member | entered
      · exact .inl (List.mem_cons_of_mem _ member)
      · rw [insert_new] at entered
        split at entered
        · exact .inr entered
        · rw [Table.find?_put] at entered
          split at entered
          case isTrue same => exact .inl (same ▸ List.mem_cons_self)
          case isFalse => exact .inr entered

/-- The ledger with the space of one more seeder reserved. -/
def Ledger.reserved (L : Ledger) (content size : Nat) (p : AccountId) (so : Seeder) : Ledger :=
  { L with seeders := L.seeders.put p { so with free_space := (so.free_space + 2^64 - size) % 2^64 } }.with_content content
    fun co => { co with seeder_price := insert_new co.seeder_price p so.price.amount }

theorem reserve_seeders_ok {content size : Nat} {p : AccountId} {rest : List AccountId} {L L' : Ledger} {u : Unit}
    (ran : EStateM.run (reserve_seeders content size (p :: rest)) L = .ok u L') : ∃ so, L.seeders.find? p = some so ∧
      EStateM.run (reserve_seeders content size rest) (L.reserved content size p so) = .ok () L' := by
  rw [reserve_seeders,run_get_bind] at ran
  cases found : L.seeders.find? p with
  | none =>
    rw [found] at ran
    cases ran
  | some so =>
    rw [found] at ran
    obtain ⟨_,_,stored,ran⟩ := run_bind_ok.mp ran
    obtain ⟨_,_,noted,ran⟩ := run_bind_ok.mp ran
    cases stored
    cases noted
    exact ⟨so,rfl,ran⟩

theorem registering_reserve_seeders {content size : Nat} {seeders : List AccountId} {L L' : Ledger} {u : Unit}
    (ran : EStateM.run (reserve_seeders content size seeders) L = .ok u L') : Registering L L' := by
  induction seeders generalizing L with
  | nil =>
    cases ran
    exact id
  | cons p rest ih =>
    obtain ⟨so,found,ran⟩ := reserve_seeders_ok ran
    refine Composes.trans (P := Registering) (fun registered => ?_) (ih ran)
    refine registering_update _ content (fun _ => ⟨rfl,rfl⟩) (registered.carry ?_ ?_ ?_ fun found => ⟨_,_,found,rfl,rfl⟩)
    · intro q here
      have here : ((L.seeders.put p _).find? q).isSome := here
      rw [Table.find?_put] at here
      split at here
      case isTrue same => exact registered.counted (by rw [same,found]; rfl)
      case isFalse => exact registered.counted here
    · intro q sq here
      have here : (L.seeders.put p _).find? q = some sq := here
      rw [Table.find?_put] at here
      split at here
      · cases here
        exact Nat.mod_lt _ (by decide)
      · exact registered.space here
    · intro q here
      show ((L.seeders.put p _).find? q).isSome
      rw [Table.find?_put]
      split
      · rfl
      · exact here

theorem registering_submit {env : Env} {o : ContentSubmitOperation} {content : Option Nat} {L₀ L L' : Ledger}
    (evaluated : content_submit_evaluate env o L₀ = .ok content) (prepared : Prepared L₀ L)
    (ran : EStateM.run (content_submit_apply o content) L = .ok () L') : Registering L L' := by
  cases content with
  | some id =>
    have again : Within Registering (modify_content id fun co =>
        { co with price := set_prices co.price o.price, co_authors := o.co_authors }) := within_registering fun _ => ⟨rfl,rfl⟩
    exact again.ok ran
  | none =>
    obtain ⟨now,-,ran⟩ := run_observe_bind.mp ran
    obtain ⟨_,_,created,ran⟩ := run_bind_ok.mp (run_get_bind.mp ran)
    obtain ⟨_,-,ran⟩ := run_observe_bind.mp ran
    obtain ⟨_,L₁,charged,ran⟩ := run_bind_ok.mp ran
    obtain ⟨_,L₂,noted,ran⟩ := run_bind_ok.mp ran
    obtain ⟨_,L₃,reserved,requested⟩ := run_bind_ok.mp ran
    refine Composes.trans (P := Registering) ?_ (Composes.trans (Within.ok inferInstance charged) (Composes.trans
      (Within.ok inferInstance noted) (Composes.trans (registering_reserve_seeders reserved)
        (Within.ok inferInstance requested))))
    cases created
    intro registered
    have room := (content_submit_evaluate_ok evaluated).2.2.2
    have seeders : L.seeders = L₀.seeders := by rw [prepared.rest]
    refine ⟨registered.counted,registered.space,?_,?_,?_⟩
    all_goals
      intro k c found
      have found : (L.contents.create (new_content o now)).find? k = some c := found
      rw [Index.find?_create] at found
      split at found
    · intro p held
      cases found
      rcases pair_key_parts_isSome held with member | none
      · obtain ⟨so,known,-⟩ := room p member
        show (L.seeders.find? p).isSome
        rw [seeders,known]
        rfl
      · cases none
    · exact fun _ held => registered.parts found held
    · intro p held
      cases found
      cases held
    · exact fun _ held => registered.proofs found held
    · intro _ p
      cases found
      rfl
    · exact registered.simplified found

/-! ### Every run -/

theorem registering_proof {o : ProofOfCustodyOperation} {L L' : Ledger} {u : Unit}
    (ran : EStateM.run (proof_of_custody_apply o) L = .ok u L') : Registering L L' := by
  have noted {L : Ledger} {id : Nat} {f : Content → Content} {content : Content}
      (known : (L.seeders.find? o.seeder).isSome) (found : L.contents.find? id = some content)
      (held : content.key_parts.rows ≠ []) (parts : (f content).key_parts = content.key_parts)
      (proved : ∃ now, (f content).last_proof = content.last_proof.put o.seeder now) : Registering L (L.with_content id f) := by
    intro registered
    have same (k : Nat) (c : Content) (here : (L.with_content id f).contents.find? k = some c) :
        (k = id ∧ c = f content) ∨ L.contents.find? k = some c := by
      have here : (L.contents.update id f).find? k = some c := here
      rw [Index.find?_update] at here
      split at here
      case isTrue same =>
        rw [found] at here
        cases here
        exact .inl ⟨same,rfl⟩
      case isFalse => exact .inr here
    refine ⟨registered.counted,registered.space,?_,?_,?_⟩
    · intro k c here p owns
      rcases same k c here with ⟨-,rfl⟩ | here
      · exact registered.parts found (parts ▸ owns)
      · exact registered.parts here owns
    · intro k c here p owns
      rcases same k c here with ⟨-,rfl⟩ | here
      · obtain ⟨now,proved⟩ := proved
        rw [proved,Table.find?_put] at owns
        split at owns
        case isTrue here =>
          rw [here]
          exact known
        case isFalse => exact registered.proofs found owns
      · exact registered.proofs here owns
    · intro k c here none
      rcases same k c here with ⟨-,rfl⟩ | here
      · exact absurd (parts ▸ none) held
      · exact registered.simplified here none
  cases proof_of_custody_ok ran with
  | first id content _ known found new parts counted =>
    have held : content.key_parts.rows ≠ [] := fun none => parts (by rw [none]; rfl)
    exact Composes.trans (noted known found held rfl ⟨_,rfl⟩) (Within.ok inferInstance counted)
  | again id content reward L₁ L₂ _ known counted found old inCore capped rewarded last =>
    intro registered
    have first : Registering L L₁ := Within.ok inferInstance counted
    have registered₁ := first registered
    have known : (L₁.seeders.find? o.seeder).isSome := by
      rw [modify_statistics_frame counted]
      exact known
    have held : content.key_parts.rows ≠ [] := by
      intro none
      rw [registered₁.simplified found none] at old
      cases old
    have spent := noted (f := rewarded_content o.seeder L.properties.time ⟨content.publishing_fee_escrow.amount - reward,core⟩)
      known found held rfl ⟨_,rfl⟩
    have paid : Registering _ L₂ := Within.ok inferInstance rewarded
    rw [last]
    exact Registering.of_eq (L := L₂) rfl rfl rfl (paid (spent registered₁))

theorem registering_publish (o : ReadyToPublishOperation) (L : Ledger) : Registering L (ready_to_publish_apply o L) := by
  intro registered
  have offered (p : AccountId) : o.seeder = p ∨ ∀ so, (L.seeders.put o.seeder so).find? p = L.seeders.find? p := by
    by_cases same : o.seeder = p
    · exact .inl same
    · exact .inr fun so => Table.find?_put_other _ so (Ne.symm same)
  have space {so : Seeder} (bound : so.free_space < 2^64) {p : AccountId} {sp : Seeder}
      (here : (L.seeders.put o.seeder so).find? p = some sp) : sp.free_space < 2^64 := by
    rcases offered p with rfl | other
    · rw [Table.find?_put_same] at here
      cases here
      exact bound
    · rw [other] at here
      exact registered.space here
  have known {so : Seeder} {p : AccountId} (here : (L.seeders.find? p).isSome) :
      ((L.seeders.put o.seeder so).find? p).isSome := by
    rcases offered p with rfl | other
    · rw [Table.find?_put_same]
      rfl
    · rw [other]
      exact here
  have bound : o.space.toNat < 2^64 := o.space.toNat_lt
  unfold ready_to_publish_apply
  dsimp only
  cases found : L.seeders.find? o.seeder with
  | none =>
    refine registered.carry ?_ (space bound) known fun found => ⟨_,_,found,rfl,rfl⟩
    intro p here
    show ((L.statistics.put o.seeder _).find? p).isSome
    rw [Table.find?_put]
    split
    · rfl
    case isFalse other =>
      have here : ((L.seeders.put o.seeder _).find? p).isSome := here
      rw [Table.find?_put_other _ _ other] at here
      exact registered.counted here
  | some so =>
    refine registered.carry ?_ (space bound) known fun found => ⟨_,_,found,rfl,rfl⟩
    intro p here
    show (L.statistics.find? p).isSome
    rcases offered p with rfl | other
    · exact registered.counted (by rw [found]; rfl)
    · have here : ((L.seeders.put o.seeder _).find? p).isSome := here
      rw [other] at here
      exact registered.counted here

theorem registering_writes {o : SettingsOperation} {L L' : Ledger} (writes : Writes L o L') : Registering L L' := by
  cases writes with
  | ready_to_publish o => exact registering_publish o L
  | ready_to_publish2 o => exact registering_publish o L
  | _ => exact .of_eq rfl rfl rfl

theorem registering_settled {change : SettingsChange} {L L' : Ledger}
    (from_source : (∃ o : SettingsOperation, change = o.change) ∨ Aloof change) (applied : change.do_apply L = .ok L') :
    Registering L L' := by
  rcases from_source with ⟨o,rfl⟩ | aloof
  · exact registering_writes (do_apply_writes applied)
  · obtain ⟨-,seeders,statistics⟩ := aloof L L' applied
    exact .of_eq (change.settled applied).contents seeders statistics

theorem registering_perform {action : Action} {L L' : Ledger} (source : source_step L action)
    (ran : EStateM.run (perform action) L = .ok () L') : Registering L L' := by
  refine related_perform (fun _ _ => True) ?_ ?_ ?_ source ran
  · intro env executed op L L₂ L₃ x fee act source _ _ prepared evaluated applied inside
    cases op <;> simp only [do_evaluate,reads_bind,reads_pure,Prod.mk.injEq] at evaluated
    case content_submit o =>
      obtain ⟨content,evaluated,-,rfl⟩ := evaluated
      exact registering_submit evaluated prepared applied
    case proof_of_custody o =>
      obtain ⟨_,-,-,rfl⟩ := evaluated
      exact registering_proof applied
    case proposal_update =>
      obtain ⟨-,rfl⟩ := evaluated
      exact inside applied
    case other payer paid change =>
      obtain ⟨-,rfl⟩ := evaluated
      obtain ⟨_,settled,stored⟩ := run_observe_bind.mp applied
      cases stored
      exact registering_settled source settled
    all_goals
      obtain ⟨_,-,-,rfl⟩ := evaluated
      exact Within.ok inferInstance applied
  · rintro change L L' (rfl | aloof) applied
    · cases applied
      exact .of_eq rfl rfl rfl
    · exact registering_settled (.inr aloof) applied
  · intro _ ran
    exact Within.ok (x := perform_chain_maintenance) inferInstance ran

theorem registered_genesis (g : GenesisState) : Registered (init_genesis g) where
  counted here := nomatch here
  space here := nomatch here
  parts found := nomatch found
  proofs found := nomatch found
  simplified found := nomatch found

theorem Reached.registered {g : GenesisState} {L : Ledger} (reached : Reached g source_step L) : Registered L :=
  reached.invariant (registered_genesis g) fun registered source ran => registering_perform source ran registered

end Decent.Money
