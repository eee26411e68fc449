import GroupCalendar.Cloud.Call
import GroupCalendar.GraphQl.Proxy
import GroupCalendar.Url.Percent

/-! # Functions in the cloud

A function is called by its name with a payload and leaves a payload behind.
-/

namespace GroupCalendar.Cloud.Functions

/-- The errors of a call. Those with an abbreviation in their code are shown under a second name. -/
def faults : Fault.Declared :=
  Fault.shownAsCodes
    ["DurableExecutionAlreadyStartedException", "InvalidParameterValueException",
      "InvalidRequestContentException", "InvalidRuntimeException", "InvalidZipFileException",
      "NoPublishedVersionException", "RecursiveInvocationException", "RequestTooLargeException",
      "ResourceConflictException", "ResourceNotFoundException", "ResourceNotReadyException",
      "SerializedRequestEntityTooLargeException", "ServiceException", "SnapStartException",
      "SnapStartNotReadyException", "SnapStartTimeoutException", "TooManyRequestsException",
      "UnsupportedMediaTypeException"] ++
  [("EC2AccessDeniedException", "Ec2AccessDeniedException"),
    ("EC2ThrottledException", "Ec2ThrottledException"),
    ("EC2UnexpectedException", "Ec2UnexpectedException"),
    ("EFSIOException", "EfsioException"),
    ("EFSMountConnectivityException", "EfsMountConnectivityException"),
    ("EFSMountFailureException", "EfsMountFailureException"),
    ("EFSMountTimeoutException", "EfsMountTimeoutException"),
    ("ENILimitReachedException", "EniLimitReachedException"),
    ("InvalidSecurityGroupIDException", "InvalidSecurityGroupIdException"),
    ("InvalidSubnetIDException", "InvalidSubnetIdException"),
    ("KMSAccessDeniedException", "KmsAccessDeniedException"),
    ("KMSDisabledException", "KmsDisabledException"),
    ("KMSInvalidStateException", "KmsInvalidStateException"),
    ("KMSNotFoundException", "KmsNotFoundException"),
    ("SubnetIPAddressLimitReachedException", "SubnetIpAddressLimitReachedException")].map
    fun (code, name) => (code, s!"{name} [{code}]")

def path (function : String) : String :=
  let label := Percent.encode Percent.inLabel function.toList
  s!"/2015-03-31/functions/{String.ofList label}/invocations"

/-- What a function leaves behind that is called with a payload. -/
def invoke (function : String) (payload : List UInt8) :
    ExceptT GraphQlError Cloud GraphQl.Invocation :=
  ExceptT.mk do
    if function.isEmpty then return .error (.network "unhandled error")
    let r ← call { path := path function, body := payload }
    if r.isSuccess then return .ok ⟨r.header? "X-Amz-Function-Error", r.body⟩
    else return .error (.network ((Fault.ofReply r).text faults))

/-- The answer to a GraphQL request by the proxy that runs as a function. -/
def query (function : String) (r : GraphQl.Request) : ExceptT GraphQlError Cloud Json :=
  GraphQl.viaFunction (invoke function) r

end GroupCalendar.Cloud.Functions
