import AioBotocore.Async.Run
import AioBotocore.Async.Lock
import AioBotocore.Async.Trace
import AioBotocore.Octets
import AioBotocore.Credentials.Refreshable
import AioBotocore.Credentials.Expiry
import AioBotocore.Tokens.Refreshable
import AioBotocore.Tokens.Expiry
import AioBotocore.Tee
import AioBotocore.Retries.Bucket
import AioBotocore.Response.Body
import AioBotocore.Response.ByteQueue
import AioBotocore.Response.EndOfStream
import AioBotocore.Response.Lines
import AioBotocore.AwsChunked.Format
import AioBotocore.AwsChunked.Wrapper
import AioBotocore.Segments
import AioBotocore.Paginate.PageIterator
import AioBotocore.Paginate.Resume
import AioBotocore.Paginate.Secondary
import AioBotocore.Async.Count
import AioBotocore.RefCounted
import AioBotocore.Lru
import AioBotocore.S3Express.IdentityCache
import AioBotocore.Async.ExitStack
import AioBotocore.Http.Aiohttp
import AioBotocore.Http.Httpx
import AioBotocore.Http.NoLooseClient
import AioBotocore.S3Express.RefreshLocks
import AioBotocore.Discovery.Manager
import AioBotocore.Discovery.Transport
import AioBotocore.Endpoint.Redirect
import AioBotocore.Endpoint.SendRequest
import AioBotocore.Endpoint.HeadBucket
import AioBotocore.Session.Credentials
import AioBotocore.Credentials.AssumeRole
import AioBotocore.Context
import AioBotocore.Response.FailedRead
import AioBotocore.Response.NegativeRead
import AioBotocore.Endpoint.RetryLoop
import AioBotocore.Paginate.BuildFullResult
import AioBotocore.Paginate.Reiterate
import AioBotocore.Paginate.RepeatedToken
import AioBotocore.Paginate.ResultKeyIterator
import AioBotocore.Paginate.ResultKeys
import AioBotocore.Retries.RetryHandler
import AioBotocore.Waiter
import AioBotocore.Retries.Condition
import AioBotocore.Retries.RateChange
import AioBotocore.Retries.InTime
import AioBotocore.Retries.Adaptive
import AioBotocore.Http.GetSession
import AioBotocore.EventStream.Framing
import AioBotocore.EventStream.Stream
import AioBotocore.Config.AioConfig
import AioBotocore.Hooks
import AioBotocore.Config.ClientContext
import AioBotocore.Config.CreateClient
import AioBotocore.PresignedPost
import AioBotocore.Http.SendRequest
import AioBotocore.Http.ResponseHeaders
import AioBotocore.Endpoint.ErrorBody
import AioBotocore.InstanceMetadata
import AioBotocore.Http.FindSslError
import AioBotocore.ContextVar
import AioBotocore.NestedClient
import AioBotocore.Async.Simulation
import AioBotocore.Rotation
import AioBotocore.Tokens.SsoProvider
import AioBotocore.Retries.Standard
import AioBotocore.AwsChunked.RequestChecksum
import AioBotocore.Credentials.Login
import AioBotocore.Credentials.Calls
import AioBotocore.Credentials.RoleChain
import AioBotocore.Credentials.RoleChainProgress
import AioBotocore.Emission
import AioBotocore.Client.ApiCall
import AioBotocore.Client.PresignedUrl
import AioBotocore.Credentials.Mfa
import AioBotocore.Endpoint.SignedRedirect
import AioBotocore.Config.SmartDefaults
import AioBotocore.Endpoint.Download
import AioBotocore.S3Express.Sessions
