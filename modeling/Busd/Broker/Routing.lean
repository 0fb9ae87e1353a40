import Busd.Broker.Authorization

/-!
# Recipients

`route` reads the peers, the namespaces and the subscriptions, and lists recipients in the order of their
identifiers. `Addressed` says whom a destination means, without an order and without a list.

* `Matches` : what one filter asks of the headers, `filterMatches_iff` : the broker decides it;
* `Addressed` : the connected peers that a destination means;
* `candidates_selects` : what the broker collects for a destination is who it addresses;
* `route_selects` : the recipients are the addressed peers in order, and only an unicast destination without any
  has `NoRecipient`.
-/

namespace Busd.Broker

open Words Machine Busd.Protocol Busd.Policy

variable {P : Type} {broker : Broker P} {sender : PeerId} {headers : Headers}

/-! ## Filters -/

/-- What a filter asks of the headers; an absent header differs from every value and has no beginning. -/
def Matches (headers : Headers) : HeaderFilter → Prop
  | .doesExist name => ∃ value, headers.get? name = some value
  | .doesNotExist name => headers.get? name = none
  | .equal name value => headers.get? name = some value
  | .notEqual name value => ∀ actual, headers.get? name = some actual → actual ≠ value
  | .hasPrefix name (.text start) => ∃ rest, headers.get? name = some (.text (start ++ rest))
  | .hasPrefix name (.binary start) => ∃ rest, headers.get? name = some (.binary (start ++ rest))
  | .hasPrefix _ (.unsigned _) | .hasPrefix _ (.boolean _) => False

theorem hasPrefix_matches_iff {name : String} {value : HeaderValue} :
    filterMatches headers (.hasPrefix name value) = true ↔ Matches headers (.hasPrefix name value) := by
  unfold filterMatches
  cases value with
  | text start =>
    cases hget : headers.get? name with
    | none => simp [Matches, hget]
    | some actual =>
      cases actual with
      | text actual => simp [Matches, hget, startsWith_iff]
      | _ => simp [Matches, hget]
  | binary start =>
    cases hget : headers.get? name with
    | none => simp [Matches, hget]
    | some actual =>
      cases actual with
      | binary actual =>
        simp only [Matches, hget, List.isPrefixOf_iff_prefix, Option.some.injEq, HeaderValue.binary.injEq]
        exact exists_congr fun rest => eq_comm
      | _ => simp [Matches, hget]
  | unsigned _ => simp [Matches]
  | boolean _ => simp [Matches]

theorem filterMatches_iff {filter : HeaderFilter} : filterMatches headers filter = true ↔ Matches headers filter := by
  cases filter with
  | doesExist name => exact OrdMap.contains_iff
  | doesNotExist name =>
    rw [filterMatches, Bool.not_eq_true']
    exact OrdMap.contains_eq_false_iff
  | equal name value => exact decide_eq_true_iff
  | notEqual name value =>
    rw [filterMatches, decide_eq_true_iff]
    refine ⟨fun h actual hget heq => h (heq ▸ hget), fun h hget => h value hget rfl⟩
  | hasPrefix name value => exact hasPrefix_matches_iff

theorem filtersMatch_iff {filters : List HeaderFilter} :
    filtersMatch filters headers = true ↔ ∀ filter ∈ filters, Matches headers filter := by
  rw [filtersMatch, List.all_eq_true]
  exact forall₂_congr fun _ _ => filterMatches_iff

/-! ## Whom a destination means -/

def WithClientId (broker : Broker P) (clientId : ClientId) : Set PeerId :=
  {id | ∃ peer, broker.peers.get? id = some peer ∧ peer.hello.clientId = some clientId}

/-- The peers that a message of `sender` with these headers is for. -/
def Addressed (broker : Broker P) (sender : PeerId) (headers : Headers) : Destination → Set PeerId
  | .broker => ∅
  | .peer peer => {id | id = peer ∧ broker.peers.contains peer = true}
  | .namespace ns => {id | broker.namespaces.get? ns = some id}
  | .channel channel => {id | ∃ subscribers filters, broker.subscriptions.get? channel = some subscribers ∧
      subscribers.get? id = some filters ∧ ∀ filter ∈ filters, Matches headers filter}
  | .clientId clientId .all => WithClientId broker clientId
  | .clientId clientId .first | .clientId clientId .any => {id | IsLeast (WithClientId broker clientId) id}
  | .broadcast => {id | broker.peers.contains id = true ∧ id ≠ sender}

/-- The recipients are the addressed peers, in order. -/
structure Selects (broker : Broker P) (sender : PeerId) (headers : Headers) (destination : Destination)
    (recipients : List PeerId) : Prop where
  sorted : recipients.Pairwise (· < ·)
  mem : ∀ id, id ∈ recipients ↔ id ∈ Addressed broker sender headers destination

theorem Selects.isEmpty_iff {destination : Destination} {recipients : List PeerId}
    (h : Selects broker sender headers destination recipients) :
    recipients.isEmpty = true ↔ Addressed broker sender headers destination = ∅ := by
  rw [List.isEmpty_iff, List.eq_nil_iff_forall_not_mem, Set.eq_empty_iff_forall_notMem]
  exact forall_congr' fun id => not_congr (h.mem id)

/-- The records of the peers carry their identifiers, so filtering records is filtering the map. -/
theorem map_id_filter_values (h : Integrity broker) (p : Peer → Bool) :
    (broker.peers.values.filter p).map Peer.id = (broker.peers.filter fun _ peer => p peer).keys := by
  unfold OrdMap.values OrdMap.keys OrdMap.filter
  rw [List.filter_map, List.map_map]
  refine List.map_congr_left fun e he => ?_
  exact (h.peer e.1 e.2 (OrdMap.mem_entries_iff.mp (List.mem_filter.mp he).1)).1

theorem clientId_selects (broker : Broker P) (clientId : ClientId) :
    ((broker.peers.filter fun _ peer => peer.hello.clientId = some clientId).keys).Pairwise (· < ·) ∧
      ∀ id, id ∈ (broker.peers.filter fun _ peer => peer.hello.clientId = some clientId).keys ↔
        id ∈ WithClientId broker clientId := by
  refine ⟨OrdMap.sorted_keys _, fun id => ?_⟩
  rw [OrdMap.mem_keys_iff, OrdMap.contains_iff]
  refine exists_congr fun peer => ?_
  rw [OrdMap.get?_filter, Option.filter_eq_some_iff, decide_eq_true_iff]

variable [Policy P]

/-- For a sender that may send there, the broker collects the addressed peers. -/
theorem candidates_selects (h : Integrity broker) {destination : Destination} {action : Action}
    (haction : sendAction destination = some action) (hauthorized : broker.authorize sender action = .ok ()) :
    ∃ recipients, broker.candidates sender destination headers = .ok recipients ∧
      Selects broker sender headers destination recipients := by
  cases destination with
  | broker => cases haction
  | peer peer =>
    cases haction
    refine ⟨_, by rw [candidates, hauthorized]; rfl, ?_, fun id => ?_⟩
    · split_ifs
      · exact List.pairwise_singleton _ _
      · exact List.Pairwise.nil
    · split_ifs with hpeer <;> simp [Addressed, hpeer]
  | «namespace» ns =>
    cases haction
    refine ⟨_, by rw [candidates, hauthorized]; rfl, ?_, fun id => ?_⟩
    · cases broker.namespaceOwner ns with
      | none => exact List.Pairwise.nil
      | some owner => exact List.pairwise_singleton _ _
    · exact Option.mem_toList
  | channel channel =>
    cases haction
    refine ⟨_, by rw [candidates, hauthorized]; rfl, ?_⟩
    cases hsubs : broker.subscriptions.get? channel with
    | none => exact ⟨List.Pairwise.nil, fun id => by simp [Addressed, hsubs]⟩
    | some subscribers =>
      refine ⟨OrdMap.sorted_keys _, fun id => ?_⟩
      rw [OrdMap.mem_keys_iff, OrdMap.contains_iff]
      simp only [OrdMap.get?_filter, Option.filter_eq_some_iff, filtersMatch_iff, Addressed, hsubs,
        Set.mem_ofPred_eq, Option.some.injEq, exists_and_left, exists_eq_left']
  | clientId clientId selection =>
    cases haction
    obtain ⟨hsorted, hmem⟩ := clientId_selects broker clientId
    have hset : {id | id ∈ (broker.peers.filter fun _ peer => peer.hello.clientId = some clientId).keys} =
        WithClientId broker clientId := Set.ext hmem
    have hfirst : ∀ id, id ∈ ((broker.peers.filter fun _ peer => peer.hello.clientId = some clientId).keys).take 1 ↔
        IsLeast (WithClientId broker clientId) id := by
      intro id
      rw [List.mem_take_one_iff hsorted, hset]
    refine ⟨_, by rw [candidates, hauthorized]; rfl, ?_⟩
    simp only [map_id_filter_values h fun peer => peer.hello.clientId = some clientId]
    cases selection with
    | first => exact ⟨hsorted.sublist (List.take_sublist _ _), hfirst⟩
    | any => exact ⟨hsorted.sublist (List.take_sublist _ _), hfirst⟩
    | all => exact ⟨hsorted, hmem⟩
  | broadcast =>
    cases haction
    refine ⟨_, by rw [candidates, hauthorized]; rfl, (OrdMap.sorted_keys _).filter _, fun id => ?_⟩
    rw [List.mem_filter, OrdMap.mem_keys_iff, decide_eq_true_iff]
    rfl

/-! ## Routes -/

/-- For a connected sender that may send to the destination, `route` gives the addressed peers, which are all
connected, in increasing order; it fails only with `NoRecipient`, exactly if nobody is addressed and the
destination is not a channel or a broadcast. -/
theorem route_selects {policy : P} {limits : Limits} {capabilities : Capabilities} {history : List (Op × Reply)}
    (hrun : Run exec (Broker.empty policy limits capabilities) history broker) (sender : PeerId)
    (destination : Destination) (headers : Headers) (hsender : broker.peers.contains sender = true)
    (hauthorized : ∀ action, sendAction destination = some action → broker.authorize sender action = .ok ()) :
    (∀ recipients, broker.route sender destination headers = .ok recipients →
        recipients.Pairwise (· < ·) ∧ (∀ id ∈ recipients, broker.peers.contains id = true) ∧
          {id | id ∈ recipients} = Addressed broker sender headers destination) ∧
      (broker.route sender destination headers = .error .noRecipient ↔
        Addressed broker sender headers destination = ∅ ∧ isMulticast destination = false) ∧
      ∀ error, broker.route sender destination headers = .error error → error = .noRecipient := by
  have hintegrity := (run_sound hrun (sound_empty policy limits capabilities)).integrity
  obtain ⟨found, hfound⟩ := OrdMap.contains_iff.mp hsender
  have hcredentials : broker.credentials sender = .ok found.credentials := by rw [Broker.credentials, hfound]
  have hconnected := fun recipients => @route_connected P broker _ hintegrity sender destination headers recipients
  cases haction : sendAction destination with
  | none =>
    cases destination with
    | broker =>
      have hroute : broker.route sender .broker headers = .error .noRecipient := by
        rw [route, hcredentials]
        rfl
      rw [hroute]
      refine ⟨fun _ h => (by cases h), ⟨fun _ => ⟨rfl, rfl⟩, fun _ => rfl⟩, fun error h => ?_⟩
      cases h
      rfl
    | _ => cases haction
  | some action =>
    obtain ⟨recipients, hcandidates, hselects⟩ :=
      @candidates_selects P broker sender headers _ hintegrity destination action haction (hauthorized action haction)
    have hroute : broker.route sender destination headers =
        if isMulticast destination = false ∧ recipients.isEmpty = true then .error .noRecipient
        else .ok recipients := by
      rw [route, hcredentials, hcandidates]
      cases isMulticast destination <;> cases recipients <;> rfl
    have hset : {id | id ∈ recipients} = Addressed broker sender headers destination := Set.ext hselects.mem
    by_cases hnone : isMulticast destination = false ∧ recipients.isEmpty = true
    · rw [hroute, if_pos hnone]
      refine ⟨fun _ h => (by cases h), ⟨fun _ => ⟨hselects.isEmpty_iff.mp hnone.2, hnone.1⟩, fun _ => rfl⟩, ?_⟩
      intro error h
      cases h
      rfl
    · have hok : broker.route sender destination headers = .ok recipients := by rw [hroute, if_neg hnone]
      rw [hok]
      refine ⟨fun others h => ?_, ⟨fun h => (by cases h), fun h => ?_⟩, fun _ h => (by cases h)⟩
      · cases h
        exact ⟨hselects.sorted, hconnected recipients hok, hset⟩
      · exact absurd ⟨h.2, hselects.isEmpty_iff.mpr h.1⟩ hnone

def threeClients : List (Op × Reply) × Broker AllowAll :=
  run exec (Broker.empty .mk .default ∅) [plainConnect, plainConnect, plainConnect]

/-- A broadcast of the second client is for the other two. -/
theorem route_selects_broadcast :
    threeClients.2.route (.new 2) .broadcast ∅ = .ok [.new 1, .new 3] ∧
      {id | id ∈ [PeerId.new 1, PeerId.new 3]} = Addressed threeClients.2 (.new 2) ∅ .broadcast := by
  have hrun : Run exec (Broker.empty AllowAll.mk .default ∅) threeClients.1 threeClients.2 := run_spec _ _
  have hroute : threeClients.2.route (.new 2) .broadcast ∅ = .ok [.new 1, .new 3] := by decide +kernel
  have hauthorized : ∀ action, sendAction .broadcast = some action →
      threeClients.2.authorize (.new 2) action = .ok () := by
    intro action haction
    cases haction
    decide +kernel
  have hselects := route_selects hrun (.new 2) .broadcast ∅ (by decide +kernel) hauthorized
  exact ⟨hroute, (hselects.1 _ hroute).2.2⟩

end Busd.Broker
