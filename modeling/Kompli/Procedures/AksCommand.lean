import Kompli.ComplianceEngine.JsonWrapper
import Kompli.ComplianceEngine.MmiResults
import Kompli.Foundation.Lines
import Kompli.Foundation.Regex
import Kompli.Foundation.ShellWords

/-! The commands that ask for the state of a Kubernetes cluster, and what a shell reads there. -/
namespace Kompli.AksCommand
open Parson Foundation ShellWords

inductive AksCommandOperation where
  | cniPlugin
  | controlPlaneEndpoint
  | publicPrivateEndpointAccess
  | networkPolicy
  | generalPolicies
  | podSecurityStandards
  | kubelet
  | serviceAccount
  | pod
  | secretsEnvironmentVariables
  | privateNodes
  deriving DecidableEq

/-- What is compared with the output is left out. -/
structure AksCommandParams where
  operation : AksCommandOperation
  clusterName : Option Bytes := none
  resourceGroup : Option Bytes := none
  nodeName : Option Bytes := none
  namespaceName : Option Bytes := none
  serviceAccountName : Option Bytes := none
  podName : Option Bytes := none

def dot : UInt8 := 0x2E

def dash : UInt8 := 0x2D

def isNamePart (c : UInt8) : Bool := isAlnum c || c ∈ utf8 "_.-"

def isLowerAlnum (c : UInt8) : Bool := (0x61 ≤ c && c ≤ 0x7A) || isDigit c

/-- `[A-Za-z0-9][A-Za-z0-9_.-]{0,89}` -/
def identifier : Regex UInt8 := .seq (.char isAlnum) (.atMost (.char isNamePart) 89)

/-- `[a-z0-9]([a-z0-9-]{0,61}[a-z0-9])?` -/
def label : Regex UInt8 :=
  .seq (.char isLowerAlnum)
    (.optional (.seq (.atMost (.char fun c => isLowerAlnum c || c ∈ utf8 "-") 61) (.char isLowerAlnum)))

def isAzureIdentifier (value : Bytes) : Bool := identifier.isMatch value

/-- As `std::getline` takes them, without an empty label at the end. -/
def labels (value : Bytes) : List Bytes :=
  let items := value.splitOn dot
  if items.getLast? = some [] then items.dropLast else items

def isKubernetesDnsSubdomain (value : Bytes) : Bool :=
  if value = [] ∨ 253 < value.length then false
  else if (labels value).all label.isMatch = false then false
  else value.getLast? ≠ some dot

def isKubernetesNamespace (value : Bytes) : Bool := label.isMatch value

def azCommand (params : AksCommandParams) (query : Bytes) : Except Error Bytes :=
  match params.clusterName, params.resourceGroup with
  | some clusterName, some resourceGroup =>
    if !isAzureIdentifier clusterName || !isAzureIdentifier resourceGroup then
      .error { message := utf8 "clusterName or resourceGroup contains unsupported characters", code := EINVAL }
    else
      .ok (utf8 "az aks show --resource-group " ++ resourceGroup ++ utf8 " --name " ++ clusterName ++
        utf8 " --output json --query '" ++ query ++ utf8 "'")
  | _, _ => .error { message := utf8 "clusterName and resourceGroup are required for this operation", code := EINVAL }

def cniQuery : Bytes :=
  utf8 "\x7bnetworkPlugin:networkProfile.networkPlugin, networkPluginMode:networkProfile.networkPluginMode, " ++
    utf8 "networkDataplane:networkProfile.networkDataplane\x7d"

def endpointQuery : Bytes :=
  utf8 "\x7benablePrivateCluster:apiServerAccessProfile.enablePrivateCluster, " ++
    utf8 "enablePublicFqdn:apiServerAccessProfile.enablePublicFqdn, " ++
    utf8 "authorizedIpRanges:apiServerAccessProfile.authorizedIpRanges\x7d"

def policyQuery : Bytes := utf8 "networkProfile.networkPolicy"

def nodesQuery : Bytes :=
  utf8 "agentPoolProfiles[].\x7bnodePool:name,mode:mode,enableNodePublicIP:enableNodePublicIP\x7d"

def buildCommand (params : AksCommandParams) : Except Error Bytes :=
  match params.operation with
  | .cniPlugin => azCommand params cniQuery
  | .controlPlaneEndpoint | .publicPrivateEndpointAccess => azCommand params endpointQuery
  | .networkPolicy => azCommand params policyQuery
  | .privateNodes => azCommand params nodesQuery
  | .generalPolicies =>
    .ok (utf8 "kubectl get namespaces -o jsonpath='\x7brange .items[*]\x7d\x7b.metadata.name\x7d\x7b\"\\n\"\x7d\x7bend\x7d'")
  | .podSecurityStandards | .secretsEnvironmentVariables => .ok (utf8 "kubectl get pods --all-namespaces -o json")
  | .kubelet =>
    match params.nodeName with
    | none => .error { message := utf8 "nodeName is required for the kubelet operation", code := EINVAL }
    | some nodeName =>
      if !isKubernetesDnsSubdomain nodeName then
        .error { message := utf8 "nodeName contains unsupported characters", code := EINVAL }
      else .ok (utf8 "kubectl get --raw '/api/v1/nodes/" ++ nodeName ++ utf8 "/proxy/configz'")
  | .serviceAccount =>
    match params.serviceAccountName, params.namespaceName with
    | some serviceAccountName, some namespaceName =>
      if !isKubernetesDnsSubdomain serviceAccountName || !isKubernetesNamespace namespaceName then
        .error { message := utf8 "serviceAccountName or namespaceName contains unsupported characters", code := EINVAL }
      else
        .ok (utf8 "kubectl get serviceaccount " ++ serviceAccountName ++ utf8 " --namespace " ++ namespaceName ++
          utf8 " -o yaml")
    | _, _ =>
      .error { message := utf8 "serviceAccountName and namespaceName are required for this operation", code := EINVAL }
  | .pod =>
    match params.podName, params.namespaceName with
    | some podName, some namespaceName =>
      if !isKubernetesDnsSubdomain podName || !isKubernetesNamespace namespaceName then
        .error { message := utf8 "podName or namespaceName contains unsupported characters", code := EINVAL }
      else .ok (utf8 "kubectl get pod " ++ podName ++ utf8 " --namespace " ++ namespaceName ++ utf8 " -o yaml")
    | _, _ => .error { message := utf8 "podName and namespaceName are required for this operation", code := EINVAL }

/-- The parameters that can be in a command. -/
inductive Parameter where
  | clusterName
  | resourceGroup
  | nodeName
  | namespaceName
  | serviceAccountName
  | podName
  deriving DecidableEq

def AksCommandParams.get (params : AksCommandParams) : Parameter → Option Bytes
  | .clusterName => params.clusterName
  | .resourceGroup => params.resourceGroup
  | .nodeName => params.nodeName
  | .namespaceName => params.namespaceName
  | .serviceAccountName => params.serviceAccountName
  | .podName => params.podName

/-- A part of a word that is meant to be fixed, or to be a parameter. -/
inductive Part where
  | text (text : Bytes)
  | parameter (parameter : Parameter)

def Part.parameter? : Part → Option Parameter
  | .text _ => none
  | .parameter p => some p

def Part.fill (params : AksCommandParams) : Part → Bytes
  | .text t => t
  | .parameter p => (params.get p).getD []

def spelled (params : AksCommandParams) (word : List Part) : Bytes := word.flatMap (Part.fill params)

def azWords (query : Bytes) : List (List Part) :=
  [[.text (utf8 "az")], [.text (utf8 "aks")], [.text (utf8 "show")], [.text (utf8 "--resource-group")],
    [.parameter .resourceGroup], [.text (utf8 "--name")], [.parameter .clusterName], [.text (utf8 "--output")],
    [.text (utf8 "json")], [.text (utf8 "--query")], [.text query]]

def namespacedWords (kind : Bytes) (name : Parameter) : List (List Part) :=
  [[.text (utf8 "kubectl")], [.text (utf8 "get")], [.text kind], [.parameter name], [.text (utf8 "--namespace")],
    [.parameter .namespaceName], [.text (utf8 "-o")], [.text (utf8 "yaml")]]

/-- The words each operation is meant to run. -/
def words : AksCommandOperation → List (List Part)
  | .cniPlugin => azWords cniQuery
  | .controlPlaneEndpoint | .publicPrivateEndpointAccess => azWords endpointQuery
  | .networkPolicy => azWords policyQuery
  | .privateNodes => azWords nodesQuery
  | .generalPolicies =>
    [[.text (utf8 "kubectl")], [.text (utf8 "get")], [.text (utf8 "namespaces")], [.text (utf8 "-o")],
      [.text (utf8 "jsonpath=\x7brange .items[*]\x7d\x7b.metadata.name\x7d\x7b\"\\n\"\x7d\x7bend\x7d")]]
  | .podSecurityStandards | .secretsEnvironmentVariables =>
    [[.text (utf8 "kubectl")], [.text (utf8 "get")], [.text (utf8 "pods")], [.text (utf8 "--all-namespaces")],
      [.text (utf8 "-o")], [.text (utf8 "json")]]
  | .kubelet =>
    [[.text (utf8 "kubectl")], [.text (utf8 "get")], [.text (utf8 "--raw")],
      [.text (utf8 "/api/v1/nodes/"), .parameter .nodeName, .text (utf8 "/proxy/configz")]]
  | .serviceAccount => namespacedWords (utf8 "serviceaccount") .serviceAccountName
  | .pod => namespacedWords (utf8 "pod") .podName

section Names

variable {value : Bytes} {c : UInt8}

/-- What the operations take for a parameter: nothing in it means anything to a shell. -/
structure IsName (value : Bytes) : Prop where
  parts : ∀ c ∈ value, isNamePart c = true
  first : ∃ c rest, value = c :: rest ∧ isAlnum c = true

theorem isLowerAlnum_alnum (h : isLowerAlnum c = true) : isAlnum c = true :=
  forall_byte (P := fun c => isLowerAlnum c = true → isAlnum c = true) (by decide +kernel) c h

theorem isNamePart_of_alnum (h : isAlnum c = true) : isNamePart c = true := by
  rw [isNamePart, h, Bool.true_or]

theorem isNamePart_literal (h : isNamePart c = true) : isLiteral c = true :=
  forall_byte (P := fun c => isNamePart c = true → isLiteral c = true) (by decide +kernel) c h

theorem isName_of_identifier (h : isAzureIdentifier value = true) : IsName value := by
  obtain ⟨first, rest, rfl, ⟨c, rfl, hc⟩, hrest⟩ := (Regex.isMatch_iff identifier value).mp h
  obtain ⟨-, hall⟩ := Regex.matches_atMost_char.mp hrest
  exact ⟨List.forall_mem_cons.mpr ⟨isNamePart_of_alnum hc, hall⟩, c, rest, rfl, hc⟩

theorem isName_of_label (h : label.isMatch value = true) : IsName value := by
  obtain ⟨first, rest, rfl, ⟨c, rfl, hc⟩, hrest⟩ := (Regex.isMatch_iff label value).mp h
  have hfirst := isLowerAlnum_alnum hc
  refine ⟨List.forall_mem_cons.mpr ⟨isNamePart_of_alnum hfirst, ?_⟩, c, rest, rfl, hfirst⟩
  obtain ⟨middle, last, rfl, hmiddle, ⟨d, rfl, hd⟩⟩ | rfl := Regex.matches_optional.mp hrest
  · intro e he
    change e ∈ middle ++ [d] at he
    rw [List.mem_append, List.mem_singleton] at he
    obtain he | rfl := he
    · have hpart := (Regex.matches_atMost_char.mp hmiddle).2 e he
      rw [Bool.or_eq_true] at hpart
      obtain hlower | hdash := hpart
      · exact isNamePart_of_alnum (isLowerAlnum_alnum hlower)
      · rw [of_decide_eq_true hdash |> List.mem_singleton.mp]
        rfl
    · exact isNamePart_of_alnum (isLowerAlnum_alnum hd)
  · exact fun e he => absurd he List.not_mem_nil

theorem isName_of_subdomain (h : isKubernetesDnsSubdomain value = true) : IsName value := by
  rw [isKubernetesDnsSubdomain] at h
  split_ifs at h with hsize hlabels
  have hlast : value.getLast? ≠ some dot := of_decide_eq_true h
  have hne : value ≠ [] := fun hnil => hsize (Or.inl hnil)
  have hitems : labels value = value.splitOn dot := if_neg (mt (getLast?_splitOn hne).mp hlast)
  rw [Bool.not_eq_false, hitems, List.all_eq_true] at hlabels
  constructor
  · intro c hc
    by_cases hdot : c = dot
    · rw [hdot]
      rfl
    · obtain ⟨item, hitem, hmem⟩ := (mem_iff_splitOn hdot).mp hc
      exact (isName_of_label (hlabels item hitem)).parts c hmem
  · -- the first label is not empty
    have hfirst : ∃ rest, value = (value.splitOn dot).headD [] ++ rest := by
      induction value using lines_induction dot with
      | last value hvalue =>
        rw [List.splitOn_eq_singleton hvalue]
        exact ⟨[], (List.append_nil value).symm⟩
      | cons line rest hline _ =>
        rw [splitOn_append_cons hline]
        exact ⟨dot :: rest, rfl⟩
    obtain ⟨item, items, hsplit⟩ := List.exists_cons_of_ne_nil (List.splitOn_ne_nil dot value)
    rw [hsplit] at hlabels hfirst
    obtain ⟨c, tail, hitem, hc⟩ := (isName_of_label (hlabels item List.mem_cons_self)).first
    obtain ⟨rest, hvalue⟩ := hfirst
    rw [List.headD_cons, hitem] at hvalue
    exact ⟨c, tail ++ rest, hvalue, hc⟩

theorem IsName.writes (h : IsName value) : Writes value value := by
  obtain ⟨c, rest, hvalue, -⟩ := h.first
  apply writes_literal
  · rw [hvalue]
    exact List.cons_ne_nil c rest
  · exact List.all_eq_true.mpr fun c hc => isNamePart_literal (h.parts c hc)

theorem IsName.head (h : IsName value) : ∃ c, value.head? = some c ∧ c ≠ dash := by
  obtain ⟨c, rest, rfl, hc⟩ := h.first
  refine ⟨c, rfl, ?_⟩
  rintro rfl
  nomatch hc

end Names

/-- The command runs the operation's words with its parameters in them, none of which is taken for an option. -/
structure RunsWords (params : AksCommandParams) (command : Bytes) : Prop where
  reads : ReadsAs command ((words params.operation).map (spelled params))
  given : ∀ word ∈ words params.operation, ∀ parameter, .parameter parameter ∈ word →
    (params.get parameter).isSome = true ∧ (spelled params word).head? ≠ some dash
  once : ((words params.operation).flatten.filterMap Part.parameter?).Nodup

section Commands

variable {params : AksCommandParams} {command query : Bytes}

/-- A fixed word stands for itself. -/
private theorem writes_fixed {chars : List Char}
    (h : (!(chars.flatMap String.utf8EncodeChar).isEmpty && (chars.flatMap String.utf8EncodeChar).all isLiteral) = true) :
    Writes (utf8 (String.ofList chars)) (utf8 (String.ofList chars)) := by
  rw [Bool.and_eq_true, Bool.not_eq_true', List.isEmpty_eq_false_iff] at h
  rw [utf8_ofList]
  exact writes_literal h.1 h.2

/-- What stands between single quotes. -/
def IsQuotable (text : Bytes) : Prop := NulFree text ∧ singleQuote ∉ text

instance (text : Bytes) : Decidable (IsQuotable text) := inferInstanceAs (Decidable (_ ∧ _))

private theorem queries_quotable :
    IsQuotable cniQuery ∧ IsQuotable endpointQuery ∧ IsQuotable policyQuery ∧ IsQuotable nodesQuery := by
  rw [cniQuery, endpointQuery, policyQuery, nodesQuery]
  repeat rw [utf8_ofList]
  decide +kernel

theorem azCommand_reads (hquery : IsQuotable query) (h : azCommand params query = .ok command) :
    ∃ clusterName resourceGroup, params.clusterName = some clusterName ∧ params.resourceGroup = some resourceGroup ∧
      IsName clusterName ∧ IsName resourceGroup ∧ ReadsAs command ((azWords query).map (spelled params)) := by
  rw [azCommand] at h
  cases hcluster : params.clusterName with
  | none => simp [hcluster] at h
  | some clusterName =>
    cases hgroup : params.resourceGroup with
    | none => simp [hcluster, hgroup] at h
    | some resourceGroup =>
      rw [hcluster, hgroup] at h
      dsimp only at h
      split_ifs at h with hnames
      cases h
      rw [Bool.or_eq_true, Bool.not_eq_true', Bool.not_eq_true', not_or, Bool.not_eq_false, Bool.not_eq_false] at hnames
      have hclusterName := isName_of_identifier hnames.1
      have hresourceGroup := isName_of_identifier hnames.2
      refine ⟨clusterName, resourceGroup, rfl, rfl, hclusterName, hresourceGroup, ?_⟩
      have hwords : (azWords query).map (spelled params) =
          [utf8 "az", utf8 "aks", utf8 "show", utf8 "--resource-group", resourceGroup, utf8 "--name", clusterName,
            utf8 "--output", utf8 "json", utf8 "--query", query] := by
        simp [azWords, spelled, Part.fill, AksCommandParams.get, hcluster, hgroup]
      have hcommand : utf8 "az aks show --resource-group " ++ resourceGroup ++ utf8 " --name " ++ clusterName ++
          utf8 " --output json --query '" ++ query ++ utf8 "'" =
          List.intercalate [0x20] [utf8 "az", utf8 "aks", utf8 "show", utf8 "--resource-group", resourceGroup,
            utf8 "--name", clusterName, utf8 "--output", utf8 "json", utf8 "--query",
            singleQuote :: query ++ [singleQuote]] := by
        have hfirst : utf8 "az aks show --resource-group " = utf8 "az" ++ [0x20] ++ utf8 "aks" ++ [0x20] ++ utf8 "show" ++
            [0x20] ++ utf8 "--resource-group" ++ [0x20] := by
          repeat rw [utf8_ofList]
          rfl
        have hsecond : utf8 " --name " = [0x20] ++ utf8 "--name" ++ [0x20] := by
          repeat rw [utf8_ofList]
          rfl
        have hthird : utf8 " --output json --query '" = [0x20] ++ utf8 "--output" ++ [0x20] ++ utf8 "json" ++ [0x20] ++
            utf8 "--query" ++ [0x20] ++ [singleQuote] := by
          repeat rw [utf8_ofList]
          rfl
        have hlast : utf8 "'" = [singleQuote] := by
          repeat rw [utf8_ofList]
          rfl
        rw [hfirst, hsecond, hthird, hlast]
        simp only [List.intercalate_cons_cons, List.intercalate_singleton, List.append_assoc, List.cons_append,
          List.nil_append]
      rw [hwords, hcommand]
      apply reads_joined
      exact .cons (writes_fixed rfl) (.cons (writes_fixed rfl) (.cons (writes_fixed rfl) (.cons (writes_fixed rfl)
        (.cons hresourceGroup.writes (.cons (writes_fixed rfl) (.cons hclusterName.writes (.cons (writes_fixed rfl)
        (.cons (writes_fixed rfl) (.cons (writes_fixed rfl) (.cons (writes_single hquery.1 hquery.2) .nil))))))))))

theorem namespaced_reads {kind name namespaceName : Bytes} {parameter : Parameter} (hkind : Writes kind kind)
    (hparameter : params.get parameter = some name) (hnamespace : params.namespaceName = some namespaceName)
    (hname : IsName name) (hlabel : IsName namespaceName) :
    ReadsAs (utf8 "kubectl get " ++ kind ++ utf8 " " ++ name ++ utf8 " --namespace " ++ namespaceName ++ utf8 " -o yaml")
      ((namespacedWords kind parameter).map (spelled params)) := by
  have hwords : (namespacedWords kind parameter).map (spelled params) =
      [utf8 "kubectl", utf8 "get", kind, name, utf8 "--namespace", namespaceName, utf8 "-o", utf8 "yaml"] := by
    have hget : params.get .namespaceName = some namespaceName := hnamespace
    simp [namespacedWords, spelled, Part.fill, hparameter, hget]
  have hcommand : utf8 "kubectl get " ++ kind ++ utf8 " " ++ name ++ utf8 " --namespace " ++ namespaceName ++
      utf8 " -o yaml" = List.intercalate [0x20] [utf8 "kubectl", utf8 "get", kind, name, utf8 "--namespace",
        namespaceName, utf8 "-o", utf8 "yaml"] := by
    have hfirst : utf8 "kubectl get " = utf8 "kubectl" ++ [0x20] ++ utf8 "get" ++ [0x20] := by
      repeat rw [utf8_ofList]
      rfl
    have hblank : utf8 " " = [0x20] := by
      repeat rw [utf8_ofList]
      rfl
    have hsecond : utf8 " --namespace " = [0x20] ++ utf8 "--namespace" ++ [0x20] := by
      repeat rw [utf8_ofList]
      rfl
    have hlast : utf8 " -o yaml" = [0x20] ++ utf8 "-o" ++ [0x20] ++ utf8 "yaml" := by
      repeat rw [utf8_ofList]
      rfl
    rw [hfirst, hblank, hsecond, hlast]
    simp only [List.intercalate_cons_cons, List.intercalate_singleton, List.append_assoc, List.cons_append,
      List.nil_append]
  rw [hwords, hcommand]
  apply reads_joined
  exact .cons (writes_fixed rfl) (.cons (writes_fixed rfl) (.cons hkind (.cons hname.writes (.cons (writes_fixed rfl)
    (.cons hlabel.writes (.cons (writes_fixed rfl) (.cons (writes_fixed rfl) .nil)))))))

theorem kubelet_reads {nodeName : Bytes} (hname : IsName nodeName) :
    ReadsAs (utf8 "kubectl get --raw '/api/v1/nodes/" ++ nodeName ++ utf8 "/proxy/configz'")
      [utf8 "kubectl", utf8 "get", utf8 "--raw", utf8 "/api/v1/nodes/" ++ nodeName ++ utf8 "/proxy/configz"] := by
  have hquoted : ∀ c ∈ utf8 "/api/v1/nodes/" ++ nodeName ++ utf8 "/proxy/configz", c ≠ 0 ∧ c ≠ singleQuote := by
    intro c hc
    rw [List.mem_append, List.mem_append] at hc
    have hfixed : (utf8 "/api/v1/nodes/" ++ utf8 "/proxy/configz").all isLiteral = true := by
      repeat rw [utf8_ofList]
      rfl
    have hliteral : isLiteral c = true := by
      obtain (hc | hc) | hc := hc
      · exact List.all_eq_true.mp hfixed c (List.mem_append_left _ hc)
      · exact isNamePart_literal (hname.parts c hc)
      · exact List.all_eq_true.mp hfixed c (List.mem_append_right _ hc)
    exact ⟨(isLiteral_iff.mp hliteral).1, (isLiteral_iff.mp hliteral).2.1⟩
  have hcommand : utf8 "kubectl get --raw '/api/v1/nodes/" ++ nodeName ++ utf8 "/proxy/configz'" =
      List.intercalate [0x20] [utf8 "kubectl", utf8 "get", utf8 "--raw",
        singleQuote :: (utf8 "/api/v1/nodes/" ++ nodeName ++ utf8 "/proxy/configz") ++ [singleQuote]] := by
    have hfirst : utf8 "kubectl get --raw '/api/v1/nodes/" = utf8 "kubectl" ++ [0x20] ++ utf8 "get" ++ [0x20] ++
        utf8 "--raw" ++ [0x20] ++ [singleQuote] ++ utf8 "/api/v1/nodes/" := by
      repeat rw [utf8_ofList]
      rfl
    have hlast : utf8 "/proxy/configz'" = utf8 "/proxy/configz" ++ [singleQuote] := by
      repeat rw [utf8_ofList]
      rfl
    rw [hfirst, hlast]
    simp only [List.intercalate_cons_cons, List.intercalate_singleton, List.append_assoc, List.cons_append,
      List.nil_append]
  rw [hcommand]
  apply reads_joined
  exact .cons (writes_fixed rfl) (.cons (writes_fixed rfl) (.cons (writes_fixed rfl) (.cons
    (writes_single (fun h => (hquoted 0 h).1 rfl) fun h => (hquoted singleQuote h).2 rfl) .nil)))

/-- Where a word made of a parameter is nothing but a name. -/
theorem given_of_names (h : ∀ word ∈ words params.operation, ∀ parameter, .parameter parameter ∈ word →
    word = [.parameter parameter] ∧ ∃ value, params.get parameter = some value ∧ IsName value) :
    ∀ word ∈ words params.operation, ∀ parameter, .parameter parameter ∈ word →
      (params.get parameter).isSome = true ∧ (spelled params word).head? ≠ some dash := by
  intro word hword parameter hparameter
  obtain ⟨rfl, value, hvalue, hname⟩ := h word hword parameter hparameter
  obtain ⟨c, hhead, hc⟩ := hname.head
  have hspelled : spelled params [.parameter parameter] = value := by simp [spelled, Part.fill, hvalue]
  refine ⟨by rw [hvalue, Option.isSome_some], ?_⟩
  rw [hspelled, hhead]
  exact fun heq => hc (Option.some.inj heq)

theorem azCommand_runs (hwords : words params.operation = azWords query) (hquery : IsQuotable query)
    (h : azCommand params query = .ok command) : RunsWords params command := by
  obtain ⟨clusterName, resourceGroup, hcluster, hgroup, hclusterName, hresourceGroup, hreads⟩ := azCommand_reads hquery h
  refine ⟨by rwa [hwords], given_of_names ?_, ?_⟩
  · rw [hwords]
    intro word hword parameter hparameter
    have huse : word = [.parameter parameter] ∧ (parameter = .resourceGroup ∨ parameter = .clusterName) := by
      simp only [azWords, List.mem_cons, List.not_mem_nil, or_false] at hword
      rcases hword with rfl | rfl | rfl | rfl | rfl | rfl | rfl | rfl | rfl | rfl | rfl <;> simp_all
    obtain ⟨hsingle, rfl | rfl⟩ := huse
    · exact ⟨hsingle, resourceGroup, hgroup, hresourceGroup⟩
    · exact ⟨hsingle, clusterName, hcluster, hclusterName⟩
  · rw [hwords]
    show [Parameter.resourceGroup, Parameter.clusterName].Nodup
    decide

theorem namespaced_runs {kind name namespaceName : Bytes} {parameter : Parameter}
    (hwords : words params.operation = namespacedWords kind parameter) (hkind : Writes kind kind)
    (hparameter : params.get parameter = some name) (hnamespace : params.namespaceName = some namespaceName)
    (hother : parameter ≠ .namespaceName) (hname : IsName name) (hlabel : IsName namespaceName) :
    RunsWords params (utf8 "kubectl get " ++ kind ++ utf8 " " ++ name ++ utf8 " --namespace " ++ namespaceName ++
      utf8 " -o yaml") := by
  refine ⟨?_, given_of_names ?_, ?_⟩
  · rw [hwords]
    exact namespaced_reads hkind hparameter hnamespace hname hlabel
  · rw [hwords]
    intro word hword used hused
    have huse : word = [.parameter used] ∧ (used = parameter ∨ used = .namespaceName) := by
      simp only [namespacedWords, List.mem_cons, List.not_mem_nil, or_false] at hword
      rcases hword with rfl | rfl | rfl | rfl | rfl | rfl | rfl | rfl <;> simp_all
    obtain ⟨hsingle, rfl | rfl⟩ := huse
    · exact ⟨hsingle, name, hparameter, hname⟩
    · exact ⟨hsingle, namespaceName, hnamespace, hlabel⟩
  · rw [hwords]
    show [parameter, Parameter.namespaceName].Nodup
    simpa using hother

theorem kubelet_runs {nodeName : Bytes} (hoperation : params.operation = .kubelet) (hnode : params.nodeName = some nodeName)
    (hname : IsName nodeName) :
    RunsWords params (utf8 "kubectl get --raw '/api/v1/nodes/" ++ nodeName ++ utf8 "/proxy/configz'") := by
  have hget : params.get .nodeName = some nodeName := hnode
  refine ⟨?_, ?_, ?_⟩
  · rw [hoperation]
    have hwords : (words .kubelet).map (spelled params) =
        [utf8 "kubectl", utf8 "get", utf8 "--raw", utf8 "/api/v1/nodes/" ++ nodeName ++ utf8 "/proxy/configz"] := by
      simp [words, spelled, Part.fill, hget]
    rw [hwords]
    exact kubelet_reads hname
  · rw [hoperation]
    intro word hword used hused
    have huse : word = [.text (utf8 "/api/v1/nodes/"), .parameter .nodeName, .text (utf8 "/proxy/configz")] ∧
        used = .nodeName := by
      simp only [words, List.mem_cons, List.not_mem_nil, or_false] at hword
      rcases hword with rfl | rfl | rfl | rfl <;> simp_all
    obtain ⟨rfl, rfl⟩ := huse
    rw [hget]
    exact ⟨rfl, (nomatch ·)⟩
  · rw [hoperation]
    decide

/-- A command that uses no parameter. -/
theorem fixed_runs (hreads : ReadsAs command ((words params.operation).map (spelled params)))
    (hnone : (words params.operation).flatten.filterMap Part.parameter? = []) : RunsWords params command := by
  refine ⟨hreads, fun word hword used hused => ?_, ?_⟩
  · rw [List.filterMap_eq_nil_iff] at hnone
    nomatch hnone _ (List.mem_flatten.mpr ⟨word, hword, hused⟩)
  · rw [hnone]
    exact List.nodup_nil

theorem policies_reads : ReadsAs
    (utf8 "kubectl get namespaces -o jsonpath='\x7brange .items[*]\x7d\x7b.metadata.name\x7d\x7b\"\\n\"\x7d\x7bend\x7d'")
    [utf8 "kubectl", utf8 "get", utf8 "namespaces", utf8 "-o",
      utf8 "jsonpath=" ++ utf8 "\x7brange .items[*]\x7d\x7b.metadata.name\x7d\x7b\"\\n\"\x7d\x7bend\x7d"] := by
  have hcommand :
      utf8 "kubectl get namespaces -o jsonpath='\x7brange .items[*]\x7d\x7b.metadata.name\x7d\x7b\"\\n\"\x7d\x7bend\x7d'" =
        List.intercalate [0x20] [utf8 "kubectl", utf8 "get", utf8 "namespaces", utf8 "-o", utf8 "jsonpath=" ++
          (singleQuote :: utf8 "\x7brange .items[*]\x7d\x7b.metadata.name\x7d\x7b\"\\n\"\x7d\x7bend\x7d" ++
            [singleQuote])] := by
    repeat rw [utf8_ofList]
    decide +kernel
  have hjsonPath : IsQuotable (utf8 "\x7brange .items[*]\x7d\x7b.metadata.name\x7d\x7b\"\\n\"\x7d\x7bend\x7d") := by
    rw [utf8_ofList]
    decide +kernel
  rw [hcommand]
  apply reads_joined
  exact .cons (writes_fixed rfl) (.cons (writes_fixed rfl) (.cons (writes_fixed rfl) (.cons (writes_fixed rfl)
    (.cons ((writes_fixed rfl).append (writes_single hjsonPath.1 hjsonPath.2)) .nil))))

theorem pods_reads : ReadsAs (utf8 "kubectl get pods --all-namespaces -o json")
    [utf8 "kubectl", utf8 "get", utf8 "pods", utf8 "--all-namespaces", utf8 "-o", utf8 "json"] := by
  have hcommand : utf8 "kubectl get pods --all-namespaces -o json" = List.intercalate [0x20]
      [utf8 "kubectl", utf8 "get", utf8 "pods", utf8 "--all-namespaces", utf8 "-o", utf8 "json"] := by
    repeat rw [utf8_ofList]
    rfl
  rw [hcommand]
  apply reads_joined
  exact .cons (writes_fixed rfl) (.cons (writes_fixed rfl) (.cons (writes_fixed rfl) (.cons (writes_fixed rfl)
    (.cons (writes_fixed rfl) (.cons (writes_fixed rfl) .nil)))))

/-- A command that is built is one simple command: its fixed words, and the parameters as they are, none of which can be
taken for an option. -/
theorem buildCommand_runs (h : buildCommand params = .ok command) : RunsWords params command := by
  rw [buildCommand] at h
  cases hoperation : params.operation with
  | cniPlugin =>
    rw [hoperation] at h
    exact azCommand_runs (by rw [hoperation]; rfl) queries_quotable.1 h
  | controlPlaneEndpoint =>
    rw [hoperation] at h
    exact azCommand_runs (by rw [hoperation]; rfl) queries_quotable.2.1 h
  | publicPrivateEndpointAccess =>
    rw [hoperation] at h
    exact azCommand_runs (by rw [hoperation]; rfl) queries_quotable.2.1 h
  | networkPolicy =>
    rw [hoperation] at h
    exact azCommand_runs (by rw [hoperation]; rfl) queries_quotable.2.2.1 h
  | privateNodes =>
    rw [hoperation] at h
    exact azCommand_runs (by rw [hoperation]; rfl) queries_quotable.2.2.2 h
  | generalPolicies =>
    rw [hoperation] at h
    cases h
    exact fixed_runs (by rw [hoperation]; exact policies_reads) (by rw [hoperation]; rfl)
  | podSecurityStandards =>
    rw [hoperation] at h
    cases h
    exact fixed_runs (by rw [hoperation]; exact pods_reads) (by rw [hoperation]; rfl)
  | secretsEnvironmentVariables =>
    rw [hoperation] at h
    cases h
    exact fixed_runs (by rw [hoperation]; exact pods_reads) (by rw [hoperation]; rfl)
  | kubelet =>
    rw [hoperation] at h
    cases hnode : params.nodeName with
    | none => simp [hnode] at h
    | some nodeName =>
      rw [hnode] at h
      dsimp only at h
      split_ifs at h with hname
      cases h
      rw [Bool.not_eq_true', Bool.not_eq_false] at hname
      exact kubelet_runs hoperation hnode (isName_of_subdomain hname)
  | serviceAccount =>
    rw [hoperation] at h
    cases hname : params.serviceAccountName with
    | none => simp [hname] at h
    | some name =>
      cases hnamespace : params.namespaceName with
      | none => simp [hname, hnamespace] at h
      | some namespaceName =>
        rw [hname, hnamespace] at h
        dsimp only at h
        split_ifs at h with hboth
        cases h
        rw [Bool.or_eq_true, Bool.not_eq_true', Bool.not_eq_true', not_or, Bool.not_eq_false, Bool.not_eq_false] at hboth
        have hkubectl : utf8 "kubectl get serviceaccount " = utf8 "kubectl get " ++ utf8 "serviceaccount" ++ utf8 " " := by
          repeat rw [utf8_ofList]
          rfl
        have hget : params.get .serviceAccountName = some name := hname
        rw [hkubectl]
        exact namespaced_runs (by rw [hoperation]; rfl) (writes_fixed rfl) hget hnamespace (by decide)
          (isName_of_subdomain hboth.1) (isName_of_label hboth.2)
  | pod =>
    rw [hoperation] at h
    cases hname : params.podName with
    | none => simp [hname] at h
    | some name =>
      cases hnamespace : params.namespaceName with
      | none => simp [hname, hnamespace] at h
      | some namespaceName =>
        rw [hname, hnamespace] at h
        dsimp only at h
        split_ifs at h with hboth
        cases h
        rw [Bool.or_eq_true, Bool.not_eq_true', Bool.not_eq_true', not_or, Bool.not_eq_false, Bool.not_eq_false] at hboth
        have hkubectl : utf8 "kubectl get pod " = utf8 "kubectl get " ++ utf8 "pod" ++ utf8 " " := by
          repeat rw [utf8_ofList]
          rfl
        have hget : params.get .podName = some name := hname
        rw [hkubectl]
        exact namespaced_runs (by rw [hoperation]; rfl) (writes_fixed rfl) hget hnamespace (by decide)
          (isName_of_subdomain hboth.1) (isName_of_label hboth.2)

end Commands

/-- The names of a pod and its namespace. -/
theorem buildCommand_runs_pod : RunsWords
    { operation := .pod, podName := some (utf8 "workload-0.a"), namespaceName := some (utf8 "application") }
    (utf8 "kubectl get pod workload-0.a --namespace application -o yaml") := by
  apply buildCommand_runs
  decide +kernel

end Kompli.AksCommand
